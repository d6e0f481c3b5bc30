import TowerRateLimiter.System.Replicas

/-!
# The requests of replicas and the server

What the server has seen of each request of a run. `Placed` says by the state of the request's
future which of its commands has been sent, and `Sound` puts that together with the stories of the
requests and with the server's own history, which is linear. A result that a request takes comes
from an execution of the request's own command, unless the window was refused or the connection
failed in a poll of the request (`answered_after`).

Main results:

* `Sound.after`: every run is sound;
* `increments_in_order`: the database of a run is the one that the executed increments leave when
  they are run one after another, and what requests are told are the results of that run.
-/

namespace TowerRateLimiter

open Rust Redis

variable {Head ReqBody ResBody E : Type} {backend : Backend}

/-! ## What the server has seen of a request -/

/-- The number of commands that were sent for a request. -/
def sends (cluster : Cluster) (id : ℕ) : ℕ := (cluster.sent.map Message.id).count id

namespace Job

variable (job : Job (redis backend) Head ReqBody ResBody)

/-- The key that the request is charged under. -/
def storeKey : String :=
  match job.limiter.extract job.request with
  | .ok key => job.limiter.storedKey key
  | .error _ => ""

/-- The request's increment, when the server executes it at `now`. -/
def increments (now : ℕ) : Call :=
  ⟨job.store.toRedisStore, job.store.implementation, .answered, job.storeKey, job.limiter.window,
    now⟩

/-- A command of request `id`, which has a key. -/
structure Commands (id : ℕ) (m : Message) : Prop where
  id_eq : m.id = id
  keyed : ∃ key, job.limiter.extract job.request = .ok key
  carries (now : ℕ) : m.Carries (job.increments now)

/-- Which commands have been sent, by the state of the request's future. -/
def Placed (id : ℕ) (cluster : Cluster) : RunState (redis backend) Head ReqBody → Prop
  | .limit _ _ _ => sends cluster id = 0
  | .store (.refused e) _ _ => sends cluster id = 0 ∧
      ∃ error, checkedWindowMillis job.limiter.window = .error error ∧ e = error.toRateLimitError
  | .store (.unsent m) _ _ => sends cluster id = 0 ∧ job.Commands id m
  | .store (.waiting ticket) _ _ =>
      sends cluster id = 1 ∧ ∃ m, cluster.sent[ticket]? = some m ∧ m.id = id
  | .store .finished _ _ => False
  | .inner _ _ | .ready _ | .done => sends cluster id ≤ 1

/-- The same, by its phase. -/
def PlacedIn (id : ℕ) (cluster : Cluster) : Phase (redis backend) Head ReqBody ResBody E → Prop
  | .unused => sends cluster id = 0
  | .live future => job.Placed id cluster future.state
  | .finished _ | .dropped | .panicked => sends cluster id ≤ 1

/-- Where the result of a charge can come from, where `lost` says which errors its connection failed
with. -/
inductive Answered (id : ℕ) (lost : ClientError → Prop) (cluster : Cluster) :
    Except RateLimitError Usage → Prop where
  | refused (e : RedisStoreError) (h : checkedWindowMillis job.limiter.window = .error e) :
      Answered id lost cluster (.error e.toRateLimitError)
  | lost (e : ClientError) (h : lost e) : Answered id lost cluster (usageOf backend (.error e))
  | executed (x : Executed) (hx : x ∈ cluster.executed) (hid : x.command.id = id) :
      Answered id lost cluster (usageOf backend x.answer)

variable {job}

/-- At most one command is sent for a request. -/
theorem Placed.sends_le {id : ℕ} {cluster : Cluster} {state : RunState (redis backend) Head ReqBody}
    (h : job.Placed id cluster state) : sends cluster id ≤ 1 := by
  rcases state with _ | ⟨_ | _ | _ | _⟩ | _ | _ | _
  · exact (show sends cluster id = 0 from h).le.trans (Nat.zero_le 1)
  · exact h.1.le.trans (Nat.zero_le 1)
  · exact h.1.le.trans (Nat.zero_le 1)
  · exact Nat.le_of_eq h.1
  · exact False.elim h
  all_goals exact h

theorem PlacedIn.sends_le {id : ℕ} {cluster : Cluster}
    {phase : Phase (redis backend) Head ReqBody ResBody E} (h : job.PlacedIn id cluster phase) :
    sends cluster id ≤ 1 := by
  cases phase with
  | unused => exact (show sends cluster id = 0 from h).le.trans (Nat.zero_le 1)
  | live future => exact Placed.sends_le h
  | _ => exact h

/-- What a request sees does not depend on the commands of others. -/
theorem Placed.congr {id : ℕ} {cluster cluster' : Cluster}
    {state : RunState (redis backend) Head ReqBody} (h : job.Placed id cluster state)
    (hsends : sends cluster' id = sends cluster id)
    (hsent : cluster.sent <+: cluster'.sent) : job.Placed id cluster' state := by
  rcases state with _ | ⟨_ | _ | _ | _⟩ | _ | _ | _
  · exact hsends.trans h
  · exact ⟨hsends.trans h.1, h.2⟩
  · exact ⟨hsends.trans h.1, h.2⟩
  · obtain ⟨hone, m, hm, hid⟩ := h
    obtain ⟨later, hlater⟩ := hsent
    refine ⟨hsends.trans hone, m, ?_, hid⟩
    rw [← hlater, List.getElem?_append_left (List.getElem?_eq_some_iff.mp hm).1, hm]
  · exact h
  all_goals exact hsends.trans_le h

theorem PlacedIn.congr {id : ℕ} {cluster cluster' : Cluster}
    {phase : Phase (redis backend) Head ReqBody ResBody E} (h : job.PlacedIn id cluster phase)
    (hsends : sends cluster' id = sends cluster id) (hsent : cluster.sent <+: cluster'.sent) :
    job.PlacedIn id cluster' phase := by
  cases phase with
  | unused => exact hsends.trans h
  | live future => exact Placed.congr h hsends hsent
  | _ => exact hsends.trans_le h

/-- A result stays a result. -/
theorem Answered.mono {id : ℕ} {lost lost' : ClientError → Prop} {cluster cluster' : Cluster}
    {result : Except RateLimitError Usage} (h : job.Answered id lost cluster result)
    (hlost : ∀ e, lost e → lost' e) (hexecuted : cluster.executed <+: cluster'.executed) :
    job.Answered id lost' cluster' result := by
  cases h with
  | refused e h => exact .refused e h
  | lost e h => exact .lost e (hlost e h)
  | executed x hx hid => exact .executed x (hexecuted.subset hx) hid

/-- A usage is an answer of the server. -/
theorem Answered.executed_of_usage {id : ℕ} {lost : ClientError → Prop} {cluster : Cluster}
    {u : Usage} (h : job.Answered id lost cluster (.ok u)) :
    ∃ x ∈ cluster.executed, x.command.id = id ∧ usageOf backend x.answer = .ok u := by
  generalize hresult : (Except.ok u : Except RateLimitError Usage) = result at h
  cases h with
  | refused e he => exact absurd hresult (by simp)
  | lost e he => exact absurd hresult (by simp [usageOf, Except.mapError, Except.bind])
  | executed x hx hid => exact ⟨x, hx, hid, rfl⟩

/-! ## One iteration -/

/-- An iteration leaves the server alone, or sends a command of the request after the limit of the
request was resolved. -/
def Moves (job : Job (redis backend) Head ReqBody ResBody) (id : ℕ)
    (acts : List (Act (redis backend) Head ReqBody)) (cluster cluster' : Cluster) : Prop :=
  cluster' = cluster ∨
    ∃ m limit, cluster' = cluster.send m ∧ job.Commands id m ∧ Act.limit limit ∈ acts

theorem Moves.executed {id : ℕ} {acts : List (Act (redis backend) Head ReqBody)}
    {cluster cluster' : Cluster} (h : job.Moves id acts cluster cluster') :
    cluster'.executed = cluster.executed := by
  rcases h with rfl | ⟨m, limit, rfl, -⟩ <;> rfl

theorem Moves.sent {id : ℕ} {acts : List (Act (redis backend) Head ReqBody)}
    {cluster cluster' : Cluster} (h : job.Moves id acts cluster cluster') :
    cluster.sent <+: cluster'.sent := by
  rcases h with rfl | ⟨m, limit, rfl, -⟩
  · exact List.prefix_rfl
  · exact List.prefix_append _ _

theorem sends_send (cluster : Cluster) (m : Message) (id : ℕ) :
    sends (cluster.send m) id = sends cluster id + if m.id = id then 1 else 0 := by
  simp only [sends, Remote.Server.send, List.map_append, List.map_cons, List.map_nil,
    List.count_append, List.count_singleton, beq_iff_eq]

/-- The commands of the others are as before. -/
theorem Moves.sends_other {id id' : ℕ} {acts : List (Act (redis backend) Head ReqBody)}
    {cluster cluster' : Cluster} (h : job.Moves id acts cluster cluster') (hne : id' ≠ id) :
    sends cluster' id' = sends cluster id' := by
  rcases h with rfl | ⟨m, limit, rfl, ⟨hid, -⟩, -⟩
  · rfl
  · rw [sends_send, if_neg (by rw [hid]; exact hne.symm), Nat.add_zero]

theorem increment_placed {id : ℕ} {cluster : Cluster} {key : String} (limit : UInt64)
    (hkey : job.limiter.extract job.request = .ok key) (hsends : sends cluster id = 0) :
    job.Placed id cluster (.store (job.store.begin job.store.implementation id
      (job.limiter.storedKey key) job.limiter.window) job.request limit) := by
  have hstore : job.storeKey = job.limiter.storedKey key := by
    unfold storeKey
    rw [hkey]
  unfold RedisStore.begin
  cases hwindow : checkedWindowMillis job.limiter.window with
  | error e => exact ⟨hsends, e, hwindow, rfl⟩
  | ok windowMillis =>
    refine ⟨hsends, rfl, ⟨key, hkey⟩, fun now => ⟨rfl, ?_, hwindow, rfl⟩⟩
    simp only [increments, Call.redisKey, hstore]

theorem settle_placed {id : ℕ} {cluster : Cluster} (limit : UInt64)
    (result : Except RateLimitError Usage) (hsends : sends cluster id ≤ 1) :
    job.PlacedIn id cluster (job.settle (E := E) job.request limit result).1 := by
  have hfail : ∀ e, job.PlacedIn id cluster (job.fail (E := E) job.request e).1 := by
    intro e
    unfold fail
    split <;> exact hsends
  cases result with
  | error e => exact hfail e
  | ok u =>
    simp only [settle]
    split
    · exact hfail _
    · split <;> exact hsends

/-- **One iteration, as the server sees it.** -/
theorem iterate_placed (turn : Turn (redis backend) ResBody E) {id : ℕ} {cluster : Cluster}
    {state : RunState (redis backend) Head ReqBody} {acts : List (Act (redis backend) Head ReqBody)}
    (hlinear : Remote.Linear (Message.run backend) .empty cluster)
    (hlive : job.LiveStory state acts) (h : job.Placed id cluster state) :
    job.Moves id acts cluster (job.iterate id cluster turn state).store ∧
      job.PlacedIn id (job.iterate id cluster turn state).store
        (job.iterate id cluster turn state).phase ∧
      ∀ result, Act.answer result ∈ (job.iterate id cluster turn state).acts →
        job.Answered id (turn.store = .failed ·) cluster result := by
  -- a state that leaves the server alone takes no result either
  have hinner : ∀ metadata, sends cluster id ≤ 1 →
      job.Moves id acts cluster (job.iterate id cluster turn (.inner () metadata)).store ∧
        job.PlacedIn id (job.iterate id cluster turn (.inner () metadata)).store
          (job.iterate id cluster turn (.inner () metadata)).phase ∧
        ∀ result, Act.answer result ∈ (job.iterate id cluster turn (.inner () metadata)).acts →
          job.Answered id (turn.store = .failed ·) cluster result := by
    intro metadata hsends
    simp only [iterate]
    cases turn.inner with
    | pending => exact ⟨.inl rfl, hsends, fun result hresult => absurd hresult List.not_mem_nil⟩
    | ready _ => exact ⟨.inl rfl, hsends, fun result hresult => absurd hresult List.not_mem_nil⟩
  have hready : ∀ response, sends cluster id ≤ 1 →
      job.Moves id acts cluster (job.iterate id cluster turn (.ready response)).store ∧
        job.PlacedIn id (job.iterate id cluster turn (.ready response)).store
          (job.iterate id cluster turn (.ready response)).phase ∧
        ∀ result, Act.answer result ∈ (job.iterate id cluster turn (.ready response)).acts →
          job.Answered id (turn.store = .failed ·) cluster result := by
    intro response hsends
    cases response <;>
      exact ⟨.inl rfl, hsends, fun result hresult => absurd hresult (by simp [iterate, respond])⟩
  cases hlive with
  | skipped => exact hinner _ h
  | failedOpen => exact hinner _ h
  | admitted => exact hinner _ h
  | refused => exact hready _ h
  | failing => exact hready _ h
  | rejected => exact hready _ h
  | limiting key hkey =>
    simp only [iterate]
    rcases turn.limit with _ | ⟨e | limit⟩
    · exact ⟨.inl rfl, h, fun result hresult => absurd hresult List.not_mem_nil⟩
    · exact ⟨.inl rfl, Placed.sends_le h, fun result hresult => absurd hresult List.not_mem_nil⟩
    · exact ⟨.inl rfl, increment_placed limit hkey h,
        fun result hresult => absurd hresult (by simp [increment])⟩
  | charging key future limit seen hkey hopen =>
    obtain ⟨hfuture, rfl⟩ := hopen
    rcases RedisFuture.poll_cases backend turn.store future cluster hfuture with
      hpoll | ⟨m, rfl, hpoll⟩ | ⟨result, hpoll, hresult⟩
    · simp only [iterate, hpoll]
      exact ⟨.inl rfl, h, fun result hresult => absurd hresult List.not_mem_nil⟩
    · -- the command is sent under the next ticket
      obtain ⟨hsends, hcommands⟩ := h
      simp only [iterate, hpoll]
      refine ⟨.inr ⟨m, limit, rfl, hcommands, by simp⟩, ⟨?_, m, ?_, hcommands.id_eq⟩,
        fun result hresult => absurd hresult List.not_mem_nil⟩
      · rw [sends_send, if_pos hcommands.id_eq, hsends]
      · rw [Remote.Server.send, List.getElem?_concat_length]
    · simp only [iterate, hpoll]
      refine ⟨.inl rfl, settle_placed limit result (Placed.sends_le h), fun r hr => ?_⟩
      obtain rfl : r = result := by
        rcases List.mem_cons.mp hr with heq | hmem
        · exact Act.charge.inj heq
        · exact absurd hmem (job.charge_notMem_settle _ _ _ _)
      rcases hresult with ⟨e, rfl, rfl⟩ | ⟨e, hlink, rfl⟩ | ⟨ticket, answer, rfl, hanswer, rfl⟩
      · obtain ⟨-, error, herror, rfl⟩ := h
        exact .refused error herror
      · exact .lost e hlink
      · -- the answer under the request's ticket is that of its own command
        obtain ⟨x, hx, rfl, rfl⟩ := Remote.Server.exists_of_answer? hanswer
        obtain ⟨-, m, hm, hid⟩ := h
        have hcommand := (hlinear.sent x hx).symm.trans hm
        exact .executed x hx (by rw [Option.some.inj hcommand, hid])

end Job

/-! ## Runs -/

namespace System

variable {jobs : ℕ → Job (redis backend) Head ReqBody ResBody}
  {s : System (redis backend) Head ReqBody ResBody E}

/-- The requests whose increments the server has executed, in order. -/
def executedIds (s : System (redis backend) Head ReqBody ResBody E) : List ℕ :=
  s.store.executed.map fun x => x.command.id

/-- Every request has a story, at most one command of each has been sent and only after its limit
was resolved, the server's history is linear, and every usage is an answer of it. -/
structure Sound (jobs : ℕ → Job (redis backend) Head ReqBody ResBody)
    (s : System (redis backend) Head ReqBody ResBody E) : Prop where
  told : s.Told jobs
  placed : ∀ id, (jobs id).PlacedIn id s.store (s.phases id)
  commands : ∀ m ∈ s.store.sent, (jobs m.id).Commands m.id m
  resolved : ∀ m ∈ s.store.sent, ∃ limit, Act.limit limit ∈ s.acts m.id
  linear : Remote.Linear (Message.run backend) .empty s.store
  executed_of_usage : ∀ {id u}, Act.answer (.ok u) ∈ s.acts id →
    ∃ x ∈ s.store.executed, x.command.id = id ∧ usageOf backend x.answer = .ok u

theorem sound_start : (start : System (redis backend) Head ReqBody ResBody E).Sound jobs where
  told := told_start
  placed _ := rfl
  commands _ h := absurd h List.not_mem_nil
  resolved _ h := absurd h List.not_mem_nil
  linear := .start
  executed_of_usage h := absurd h List.not_mem_nil

namespace Sound

/-- A step of one request that has a sound outcome keeps the system sound. -/
theorem commit (h : s.Sound jobs) {id : ℕ} {o : Outcome (redis backend) Head ReqBody ResBody E}
    (htold : (jobs id).Story o.phase (s.acts id ++ o.acts))
    (hmoves : (jobs id).Moves id (s.acts id) s.store o.store)
    (hplaced : (jobs id).PlacedIn id o.store o.phase)
    (htakes : ∀ u, Act.answer (.ok u) ∈ o.acts →
      ∃ x ∈ s.store.executed, x.command.id = id ∧ usageOf backend x.answer = .ok u) :
    (s.commit id o).Sound jobs := by
  have hacts : ∀ id', s.acts id' ⊆ (s.commit id o).acts id' := by
    intro id'
    by_cases hid : id' = id
    · subst hid
      rw [acts_commit_self]
      exact List.subset_append_left _ _
    · rw [acts_commit_of_ne hid]
      exact List.Subset.refl _
  have hsent : ∀ m ∈ (s.commit id o).store.sent, (jobs m.id).Commands m.id m ∧
      ∃ limit, Act.limit limit ∈ s.acts m.id := by
    intro m hm
    have hold : m ∈ s.store.sent → (jobs m.id).Commands m.id m ∧
        ∃ limit, Act.limit limit ∈ s.acts m.id := fun hm => ⟨h.commands m hm, h.resolved m hm⟩
    rcases hmoves with heq | ⟨m', limit, heq, hcommands, hlimit⟩
    · exact hold (heq ▸ hm)
    · replace hm : m ∈ s.store.sent ++ [m'] := by
        rw [System.commit, heq] at hm
        exact hm
      rcases List.mem_append.mp hm with hm | hm
      · exact hold hm
      · obtain rfl := List.mem_singleton.mp hm
        rw [hcommands.id_eq]
        exact ⟨hcommands, limit, hlimit⟩
  refine ⟨h.told.commit htold, fun id' => ?_, fun m hm => (hsent m hm).1, fun m hm => ?_, ?_,
    fun {id' u} hu => ?_⟩
  · by_cases hid : id' = id
    · subst hid
      simpa only [System.commit, Function.update_self] using hplaced
    · simp only [System.commit, Function.update_of_ne hid]
      exact (h.placed id').congr (hmoves.sends_other hid) hmoves.sent
  · obtain ⟨limit, hlimit⟩ := (hsent m hm).2
    exact ⟨limit, hacts _ hlimit⟩
  · rcases hmoves with heq | ⟨m, limit, heq, -⟩
    · rw [System.commit, heq]
      exact h.linear
    · rw [System.commit, heq]
      exact h.linear.send m
  · simp only [System.commit, hmoves.executed]
    by_cases hid : id' = id
    · subst hid
      rw [acts_commit_self] at hu
      rcases List.mem_append.mp hu with hold | hnew
      · exact h.executed_of_usage hold
      · exact htakes u hnew
    · rw [acts_commit_of_ne hid] at hu
      exact h.executed_of_usage hu

/-- Sending a request. -/
theorem send (h : s.Sound jobs) {id : ℕ} (hphase : s.phases id = .unused) :
    (s.commit id ((jobs id).send s.store)).Sound jobs := by
  have hstory := h.told id
  have hplaced := h.placed id
  rw [hphase] at hstory hplaced
  have hsends : sends s.store id = 0 := hplaced
  have hacts : s.acts id = [] := hstory
  refine h.commit ?_ (.inl ((jobs id).store_send s.store)) ?_
    fun u hu => absurd hu ((jobs id).charge_notMem_send s.store _)
  · rw [hacts]
    exact Job.send_story s.store
  · rw [(jobs id).store_send]
    unfold Job.send
    split
    · exact hsends.le.trans (Nat.zero_le 1)
    · split
      · exact hsends.le.trans (Nat.zero_le 1)
      · exact hsends

/-- The commands of a request in progress. -/
theorem live_placed (h : s.Sound jobs) {id : ℕ} {state : RunState (redis backend) Head ReqBody}
    (hphase : s.phases id = .live ((jobs id).future state)) :
    (jobs id).Placed id s.store state := by
  have hplaced := h.placed id
  rwa [hphase] at hplaced

/-- An iteration of a request in progress. -/
theorem poll (h : s.Sound jobs) {id : ℕ} {state : RunState (redis backend) Head ReqBody}
    (turn : Turn (redis backend) ResBody E) (hlive : (jobs id).LiveStory state (s.acts id))
    (hplaced : (jobs id).Placed id s.store state) :
    (s.commit id ((jobs id).iterate id s.store turn state)).Sound jobs := by
  obtain ⟨hmoves, hplaced', htakes⟩ := Job.iterate_placed turn h.linear hlive hplaced
  exact h.commit (Job.iterate_story hlive) hmoves hplaced'
    fun u hu => (htakes _ hu).executed_of_usage

/-- An execution at the server. -/
theorem serve (h : s.Sound jobs) (ticket now : ℕ) :
    ({ s with store := Cluster.serve backend s.store ticket now } :
      System (redis backend) Head ReqBody ResBody E).Sound jobs := by
  have hsent : (Cluster.serve backend s.store ticket now).sent = s.store.sent :=
    s.store.sent_execute _ ticket now
  have hgrows := s.store.prefix_executed (Message.run backend) ticket now
  refine ⟨h.told, fun id => ?_, ?_, ?_, h.linear.execute ticket now, fun hu => ?_⟩
  · refine (h.placed id).congr ?_ ?_
    · simp only [sends, hsent]
    · simp only [hsent, List.prefix_rfl]
  · simp only [hsent]
    exact h.commands
  · simp only [hsent]
    exact h.resolved
  · obtain ⟨x, hx, hid, husage⟩ := h.executed_of_usage hu
    exact ⟨x, hgrows.subset hx, hid, husage⟩

/-- A dropped future. -/
theorem drop (h : s.Sound jobs) {id : ℕ} {state : RunState (redis backend) Head ReqBody}
    (hlive : (jobs id).LiveStory state (s.acts id)) (hplaced : (jobs id).Placed id s.store state) :
    ({ s with phases := Function.update s.phases id .dropped } :
      System (redis backend) Head ReqBody ResBody E).Sound jobs := by
  refine ⟨h.told.drop hlive, fun id' => ?_, h.commands, h.resolved, h.linear, h.executed_of_usage⟩
  by_cases hid : id' = id
  · subst hid
    simp only [Function.update_self]
    exact hplaced.sends_le
  · simp only [Function.update_of_ne hid]
    exact h.placed id'

/-- Every step keeps the system sound. -/
theorem step (h : s.Sound jobs) (event : Event (redis backend) ResBody E) :
    (s.step jobs event).Sound jobs := by
  rcases step_cases h.told event with heq | ⟨id, -, hphase, heq⟩ |
    ⟨id, turn, state, -, hphase, hlive, heq⟩ | ⟨id, state, -, hphase, hlive, heq⟩ |
    ⟨⟨ticket, now⟩, -, heq⟩ <;> rw [heq]
  · exact h
  · exact h.send hphase
  · exact h.poll turn hlive (h.live_placed hphase)
  · exact h.drop hlive (h.live_placed hphase)
  · exact h.serve ticket now

/-- The server's history only grows. -/
theorem prefix_step (h : s.Sound jobs) (event : Event (redis backend) ResBody E) :
    s.store.executed <+: (s.step jobs event).store.executed := by
  rcases step_cases h.told event with heq | ⟨id, -, -, heq⟩ |
    ⟨id, turn, state, -, hphase, hlive, heq⟩ | ⟨id, state, -, -, -, heq⟩ |
    ⟨⟨ticket, now⟩, -, heq⟩ <;> rw [heq]
  · simp only [System.commit, (jobs id).store_send, List.prefix_rfl]
  · have hmoves := (Job.iterate_placed turn h.linear hlive (h.live_placed hphase)).1
    simp only [System.commit, hmoves.executed, List.prefix_rfl]
  · exact s.store.prefix_executed _ ticket now

/-- Every run is sound. -/
theorem after (events : List (Event (redis backend) ResBody E)) (h : s.Sound jobs) :
    (s.after jobs events).Sound jobs := by
  induction events generalizing s with
  | nil => exact h
  | cons event events ih => exact ih (h.step event)

theorem prefix_after (events : List (Event (redis backend) ResBody E)) (h : s.Sound jobs) :
    s.store.executed <+: (s.after jobs events).store.executed := by
  induction events generalizing s with
  | nil => exact List.prefix_rfl
  | cons event events ih => exact (h.prefix_step event).trans (ih (h.step event))

/-- No request has two commands. -/
theorem nodup_sent (h : s.Sound jobs) : (s.store.sent.map Message.id).Nodup := by
  rw [List.nodup_iff_count_le_one]
  exact fun id => (h.placed id).sends_le

/-- **No request is executed twice.** -/
theorem nodup_executedIds (h : s.Sound jobs) : s.executedIds.Nodup :=
  h.linear.nodup_executed h.nodup_sent

/-- An executed command is its request's increment. -/
theorem carries (h : s.Sound jobs) {x : Executed} (hx : x ∈ s.store.executed) (now : ℕ) :
    x.command.Carries ((jobs x.command.id).increments now) :=
  (h.commands _ (h.linear.mem_sent hx)).carries now

/-- A request that is not used yet has not been executed. -/
theorem notMem_executedIds (h : s.Sound jobs) {id : ℕ} (hphase : s.phases id = .unused) :
    id ∉ s.executedIds := by
  intro hid
  obtain ⟨x, hx, hxid⟩ := List.mem_map.mp hid
  have hmem : id ∈ s.store.sent.map Message.id :=
    hxid ▸ List.mem_map_of_mem (h.linear.mem_sent hx)
  have hplaced := h.placed id
  rw [hphase] at hplaced
  exact absurd hplaced (List.count_pos_iff.mpr hmem).ne'

end Sound

/-- The connection of request `id` failed with `e` in a poll of the run. -/
def Disconnected (id : ℕ) (events : List (Event (redis backend) ResBody E)) (e : ClientError) :
    Prop :=
  ∃ turn, Event.poll id turn ∈ events ∧ turn.store = .failed e

/-- **Every result of a run was refused, lost with a connection that failed, or executed.** -/
theorem answered_after (jobs : ℕ → Job (redis backend) Head ReqBody ResBody)
    (events : List (Event (redis backend) ResBody E)) {id : ℕ} {result : Except RateLimitError Usage}
    (hresult : Act.answer result ∈ (start.after jobs events).acts id) :
    (jobs id).Answered id (Disconnected id events) (start.after jobs events).store result := by
  induction events using List.reverseRecOn with
  | nil => exact absurd hresult List.not_mem_nil
  | append_singleton events event ih =>
    have hsound : (start.after jobs events : System _ Head ReqBody ResBody E).Sound jobs :=
      sound_start.after events
    have hgrows := hsound.prefix_step event
    have hlater : ∀ e, Disconnected id events e → Disconnected id (events ++ [event]) e := by
      rintro e ⟨turn, hturn, he⟩
      exact ⟨turn, List.mem_append_left _ hturn, he⟩
    rw [after_append] at hresult ⊢
    change Act.answer result ∈ (System.step jobs _ event).acts id at hresult
    change Job.Answered _ _ _ (System.step jobs _ event).store _
    -- a result is an old one, unless the step takes it
    have hold : Act.answer result ∈ (start.after jobs events).acts id →
        (jobs id).Answered id (Disconnected id (events ++ [event]))
          (System.step jobs _ event).store result := fun hmem => (ih hmem).mono hlater hgrows
    rcases step_cases hsound.told event with heq | ⟨other, -, -, heq⟩ |
      ⟨other, turn, state, hevent, hphase, hlive, heq⟩ | ⟨other, state, -, -, -, heq⟩ |
      ⟨move, -, heq⟩ <;>
    rw [heq] at hresult
    · exact hold hresult
    · by_cases hid : id = other
      · subst hid
        rw [acts_commit_self] at hresult
        rcases List.mem_append.mp hresult with hmem | hmem
        · exact hold hmem
        · exact absurd hmem ((jobs id).charge_notMem_send _ _)
      · rw [acts_commit_of_ne hid] at hresult
        exact hold hresult
    · by_cases hid : id = other
      · subst hid
        rw [acts_commit_self] at hresult
        rcases List.mem_append.mp hresult with hmem | hmem
        · exact hold hmem
        · have htakes :=
            (Job.iterate_placed turn hsound.linear hlive (hsound.live_placed hphase)).2.2
          exact (htakes result hmem).mono (fun e he => ⟨turn, by simp [hevent], he⟩) hgrows
      · rw [acts_commit_of_ne hid] at hresult
        exact hold hresult
    · exact hold hresult
    · exact hold hresult

/-- The increments that the server has executed, in order. -/
def increments (jobs : ℕ → Job (redis backend) Head ReqBody ResBody)
    (s : System (redis backend) Head ReqBody ResBody E) :
    List Call :=
  s.store.executed.map fun x => (jobs x.command.id).increments x.reading

/-- The database is the one that the executed increments leave, and they return what they would one
after another. -/
theorem Sound.ran (h : s.Sound jobs) :
    s.store.state = keyspaceAfter backend .empty (s.increments jobs) ∧
      s.store.executed.map (fun x => usageOf backend x.answer) =
        callResults backend .empty (s.increments jobs) :=
  ranInOrder h.linear (fun id now => (jobs id).increments now) (fun _ _ => rfl)
    (fun m hm now => (h.commands m hm).carries now)

/-- What the server answers to one of them. -/
theorem Sound.answer_run (h : s.Sound jobs) {pre post : List Executed} {x : Executed}
    (hsplit : s.store.executed = pre ++ x :: post) :
    usageOf backend x.answer = (((jobs x.command.id).increments x.reading).run backend
      (keyspaceAfter backend .empty
        (pre.map fun y => (jobs y.command.id).increments y.reading))).1 := by
  have hplace := congrArg (·[pre.length]?) h.ran.2
  simp only [increments, hsplit, List.map_append, List.map_cons] at hplace
  have hrun := getElem?_callResults backend .empty
    (pre.map fun y => (jobs y.command.id).increments y.reading)
    (post.map fun y => (jobs y.command.id).increments y.reading)
    ((jobs x.command.id).increments x.reading)
  rw [List.length_map] at hrun
  rw [hrun, List.getElem?_append_right (by rw [List.length_map]), List.length_map, Nat.sub_self,
    List.getElem?_cons_zero] at hplace
  exact Option.some.inj hplace

/-- **Replicas are one store.** However requests interleave, however late and in whatever order
their commands are executed, and whatever is lost or dropped on the way: no request is executed
twice, the database is the one that the executed increments leave when they are run one after
another, and a request is told the result of its own increment in that run, unless its window is
refused or its connection fails. The run respects real time: a request that was told its usage
before another was sent comes before it. -/
theorem increments_in_order (jobs : ℕ → Job (redis backend) Head ReqBody ResBody)
    (events : List (Event (redis backend) ResBody E)) :
    let s := start.after jobs events
    s.executedIds.Nodup ∧
    s.store.state = keyspaceAfter backend .empty (s.increments jobs) ∧
    (∀ id result, (id, Act.answer result) ∈ s.history →
      (∃ e, checkedWindowMillis (jobs id).limiter.window = .error e ∧
        result = .error e.toRateLimitError) ∨
      (∃ e, Disconnected id events e ∧ result = usageOf backend (.error e)) ∨
      ∃ i : ℕ, s.executedIds[i]? = some id ∧
        (callResults backend .empty (s.increments jobs))[i]? = some result) ∧
    ∀ before later, events = before ++ later →
      let s₀ := start.after jobs before
      ∀ a b u (i j : ℕ), (a, Act.answer (.ok u)) ∈ s₀.history → s₀.phases b = .unused →
        s.executedIds[i]? = some a → s.executedIds[j]? = some b → i < j := by
  intro s
  have hsound : s.Sound jobs := sound_start.after events
  obtain ⟨hstate, hresults⟩ := hsound.ran
  refine ⟨hsound.nodup_executedIds, hstate, fun id result hmem => ?_, ?_⟩
  · have hanswered : (jobs id).Answered id (Disconnected id events) s.store result :=
      answered_after jobs events (mem_acts.mpr hmem)
    cases hanswered with
    | refused e he => exact .inl ⟨e, he, rfl⟩
    | lost e he => exact .inr (.inl ⟨e, he, rfl⟩)
    | executed x hx hid =>
      obtain ⟨i, hi⟩ := List.mem_iff_getElem?.mp hx
      have hplace := congrArg (·[i]?) hresults
      simp only [List.getElem?_map, hi, Option.map_some] at hplace
      refine .inr (.inr ⟨i, ?_, hplace.symm⟩)
      simp only [executedIds, List.getElem?_map, hi, Option.map_some, hid]
  · intro before later hevents s₀ a b u i j hu hb hi hj
    have hbefore : s₀.Sound jobs := sound_start.after before
    have hgrows : s₀.executedIds <+: s.executedIds := by
      have hmap := (hbefore.prefix_after later).map fun x => x.command.id
      rwa [← after_append, ← hevents] at hmap
    obtain ⟨x, hx, hid, -⟩ := hbefore.executed_of_usage (mem_acts.mpr hu)
    exact Remote.lt_of_executed hgrows hsound.nodup_executedIds (List.mem_map.mpr ⟨x, hx, hid⟩)
      (hbefore.notMem_executedIds hb) hi hj

/-- A replica of a limiter that allows one request in ten milliseconds. -/
def replica (implementation : Implementation) : Job (redis (.exact true)) Unit Unit Unit where
  limiter :=
    { policyName := "p", window := Duration.ofMillis 10, storeFailureMode := .reject
      rateLimitFields := .disabled, skip := none, extract := fun _ => .ok "c", encode := none
      build := fun _ reason => ⟨reason.statusCode, [], ()⟩ }
  store := { RedisStore.new with implementation }
  request := ⟨(), none, ()⟩

/-- Requests to two replicas with different implementations. -/
def twoJobs : ℕ → Job (redis (.exact true)) Unit Unit Unit
  | 0 => replica .lua
  | _ => replica .multiExec

/-- A turn in which the limit resolves to one, the connection works and the inner service answers. -/
def readyTurn : Turn (redis (.exact true)) Unit Unit :=
  ⟨.ready (.ok 1), .ready (.ok ⟨200, [], ()⟩), .up⟩

/-- A turn in which the connection fails. -/
def downTurn : Turn (redis (.exact true)) Unit Unit :=
  ⟨.ready (.ok 1), .ready (.ok ⟨200, [], ()⟩), .failed .connection⟩

/-- The connection of the first request fails after its command was executed. -/
def lostReply : List (Event (redis (.exact true)) Unit Unit) :=
  [.call 0, .call 1, .poll 0 readyTurn, .poll 0 readyTurn, .poll 1 readyTurn, .poll 1 readyTurn,
    .serve 0 5, .serve 1 7, .poll 0 downTurn, .poll 1 readyTurn]

/-- The first request is told that its connection failed, and the second one that it is the second:
its usage is the second result of the run of both increments. -/
theorem increments_in_order_lostReply :
    let s := start.after twoJobs lostReply
    s.executedIds = [0, 1] ∧
      (0, Act.answer (usageOf (.exact true) (.error .connection))) ∈ s.history ∧
      (1, Act.answer (.ok ⟨2, Duration.ofMillis 8⟩)) ∈ s.history ∧
      (callResults (.exact true) .empty (s.increments twoJobs))[1]? =
        some (.ok ⟨2, Duration.ofMillis 8⟩) := by
  intro s
  have hids : s.executedIds = [0, 1] := by decide
  have htold : (1, Act.answer (.ok ⟨2, Duration.ofMillis 8⟩)) ∈ s.history :=
    List.mem_of_getElem? (i := 3) rfl
  refine ⟨hids, List.mem_of_getElem? (i := 2) rfl, htold, ?_⟩
  rcases (increments_in_order twoJobs lostReply).2.2.1 1 _ htold with
    ⟨e, -, he⟩ | ⟨e, -, he⟩ | ⟨i, hi, hresult⟩
  · exact absurd he (by simp)
  · exact absurd he (by simp [usageOf, Except.mapError, Except.bind])
  · obtain rfl : i = 1 := by
      have hi : ([0, 1] : List ℕ)[i]? = some 1 := hids ▸ hi
      rcases i with _ | _ | i
      · exact absurd hi (by decide)
      · rfl
      · exact absurd hi (by simp)
    exact hresult

end System

end TowerRateLimiter
