import TowerRateLimiter.System.ReplicaAdmission

/-!
# How requests of replicas end

A request of a run ends when its future returns a response or is dropped. A poll is here, as in the
events of a run, one iteration of the loop in the future's `poll`.

A future in progress is never more than four polls away from its response, if none of them finds
anything pending: one takes the limit, one sends the command, one takes its answer and one takes the
inner response or builds one. Only a command that the server does not execute can keep it longer,
and nothing that other requests do moves it back.

Main results:

* `every_request_finishes`: a request that is polled often enough gets its response, once the server
  has executed its command;
* `cancellation`: to drop a request is never to poll it again; the only trace that it can still
  leave is the execution of a command that was in flight.
-/

namespace TowerRateLimiter

open Rust Redis

variable {Head ReqBody ResBody E : Type} {backend : Backend}

/-! ## One request of a run -/

namespace System

variable {jobs : ℕ → Job (redis backend) Head ReqBody ResBody}
  {s s' s'' : System (redis backend) Head ReqBody ResBody E}
  {id : ℕ}

/-- Request `id` is in `s'` where it was in `s`, and has neither done nor sent anything. -/
structure Rests (id : ℕ) (s s' : System (redis backend) Head ReqBody ResBody E) : Prop where
  phase : s'.phases id = s.phases id
  acts : s'.acts id = s.acts id
  sends : sends s'.store id = sends s.store id

theorem Rests.refl (id : ℕ) (s : System (redis backend) Head ReqBody ResBody E) : Rests id s s :=
  ⟨rfl, rfl, rfl⟩

theorem Rests.trans (h : Rests id s s') (h' : Rests id s' s'') : Rests id s s'' :=
  ⟨h'.phase.trans h.phase, h'.acts.trans h.acts, h'.sends.trans h.sends⟩

/-- The steps of another request. -/
theorem rests_commit (job : Job (redis backend) Head ReqBody ResBody) {other : ℕ} (hne : id ≠ other)
    {o : Outcome (redis backend) Head ReqBody ResBody E}
    (hmoves : job.Moves other (s.acts other) s.store o.store) :
    Rests id s (s.commit other o) where
  phase := Function.update_of_ne hne _ _
  acts := acts_commit_of_ne hne o
  sends := hmoves.sends_other hne

/-- **What a step can do to one request**: nothing, or it sends, polls or drops the request. -/
theorem Sound.step_request (h : s.Sound jobs) (event : Event (redis backend) ResBody E) (id : ℕ) :
    Rests id s (s.step jobs event) ∨
      (event = .call id ∧ s.phases id = .unused) ∨
      (∃ turn state, event = .poll id turn ∧ s.phases id = .live ((jobs id).future state) ∧
        (jobs id).LiveStory state (s.acts id) ∧ (jobs id).Placed id s.store state ∧
        s.step jobs event = s.commit id ((jobs id).iterate id s.store turn state)) ∨
      (event = .drop id ∧ ∃ future, s.phases id = .live future) := by
  rcases step_cases h.told event with heq | ⟨other, rfl, hphase, heq⟩ |
    ⟨other, turn, state, rfl, hphase, hlive, heq⟩ | ⟨other, state, rfl, hphase, -, heq⟩ |
    ⟨⟨ticket, now⟩, rfl, heq⟩
  · rw [heq]
    exact .inl (.refl id s)
  · by_cases hid : id = other
    · subst hid
      exact .inr (.inl ⟨rfl, hphase⟩)
    · rw [heq]
      exact .inl (rests_commit (jobs other) hid (.inl ((jobs other).store_send s.store)))
  · have hplaced := h.live_placed hphase
    by_cases hid : id = other
    · subst hid
      exact .inr (.inr (.inl ⟨turn, state, rfl, hphase, hlive, hplaced, heq⟩))
    · rw [heq]
      exact .inl (rests_commit (jobs other) hid (Job.iterate_placed turn h.linear hlive hplaced).1)
  · by_cases hid : id = other
    · subst hid
      exact .inr (.inr (.inr ⟨rfl, _, hphase⟩))
    · rw [heq]
      exact .inl ⟨Function.update_of_ne hid _ _, rfl, rfl⟩
  · have hsent : (Cluster.serve backend s.store ticket now).sent = s.store.sent :=
      s.store.sent_execute _ ticket now
    rw [heq]
    exact .inl ⟨rfl, rfl, by simp only [TowerRateLimiter.sends, hsent]⟩

end System

/-! ## How far a request is -/

/-- Whatever the turn is asked for, it is not pending. -/
def Turn.isReady (turn : Turn (redis backend) ResBody E) : Bool :=
  turn.limit.isReady && turn.inner.isReady && turn.store.isReady

/-- A poll of request `id` in a turn that is ready. -/
def Event.isReadyPoll (id : ℕ) : Event (redis backend) ResBody E → Bool
  | .poll other turn => decide (other = id) && turn.isReady
  | _ => false

/-- The polls to the response, if none of them finds anything pending. -/
def pollsLeft : State Head ReqBody Unit RedisFuture Unit → ℕ
  | .limit _ _ _ => 4
  | .store (.unsent _) _ _ => 3
  | .store _ _ _ => 2
  | .inner _ _ | .ready _ | .done => 1

namespace Phase

/-- The response is at most `n` such polls away. -/
def Within (n : ℕ) : Phase (redis backend) Head ReqBody ResBody E → Prop
  | .live future => pollsLeft future.state ≤ n
  | .finished _ => True
  | _ => False

/-- The command that the request waits for, if it does, has been executed. -/
def Served (cluster : Cluster) : Phase (redis backend) Head ReqBody ResBody E → Prop
  | .live future => ∀ ticket request limit, future.state = .store (.waiting ticket) request limit →
      (cluster.answer? ticket).isSome
  | _ => True

variable {phase : Phase (redis backend) Head ReqBody ResBody E} {n m : ℕ}

theorem Within.mono (h : phase.Within n) (hle : n ≤ m) : phase.Within m := by
  cases phase with
  | live future => exact Nat.le_trans h hle
  | finished result => trivial
  | _ => exact h

/-- A request that waits for the server is two polls away. -/
theorem Within.served (h : phase.Within 1) (cluster : Cluster) : phase.Served cluster := by
  cases phase with
  | live future =>
    intro ticket request limit hstate
    have hleft : pollsLeft future.state ≤ 1 := h
    rw [hstate] at hleft
    exact absurd hleft (by simp [pollsLeft])
  | _ => trivial

theorem Within.finished (h : phase.Within 0) : ∃ result, phase = .finished result := by
  cases phase with
  | finished result => exact ⟨result, rfl⟩
  | live future =>
    have hleft : pollsLeft future.state ≤ 0 := h
    rcases hstate : future.state with _ | ⟨_ | _ | _ | _⟩ | _ | _ | _ <;>
      simp [pollsLeft, hstate] at hleft
  | _ => exact False.elim h

/-- Answers stay. -/
theorem Served.mono {cluster cluster' : Cluster} (h : phase.Served cluster)
    (hgrows : cluster.executed <+: cluster'.executed) : phase.Served cluster' := by
  cases phase with
  | live future =>
    intro ticket request limit hstate
    exact Remote.Server.isSome_answer?_mono hgrows (h ticket request limit hstate)
  | _ => trivial

end Phase

namespace Job

variable {job : Job (redis backend) Head ReqBody ResBody}

/-- A request whose charge has a result is one poll away. -/
theorem settle_within (limit : UInt64) (result : Except RateLimitError Usage) :
    (job.settle (E := E) job.request limit result).1.Within 1 := by
  have hfail : ∀ e, (job.fail (E := E) job.request e).1.Within 1 := by
    intro e
    unfold fail
    split <;> exact Nat.le_refl 1
  cases result with
  | error e => exact hfail e
  | ok u =>
    simp only [settle]
    split
    · exact hfail _
    · split <;> exact Nat.le_refl 1

/-- **One poll comes nearer to the response**, or leaves the request where it is: then something was
pending, or it waits for a command that has not been executed. -/
theorem iterate_nearer (turn : Turn (redis backend) ResBody E) {id : ℕ} {cluster : Cluster}
    {state : RunState (redis backend) Head ReqBody} {acts : List (Act (redis backend) Head ReqBody)}
    (hlive : job.LiveStory state acts) (hplaced : job.Placed id cluster state) :
    (job.iterate id cluster turn state).phase.Within (pollsLeft state - 1) ∨
      ((job.iterate id cluster turn state).phase = .live (job.future state) ∧
        (turn.isReady = true → ∃ ticket request limit,
          state = .store (.waiting ticket) request limit ∧ cluster.answer? ticket = none)) := by
  -- three stories are in the inner state and go on in the same way
  have hinner : ∀ metadata,
      (job.iterate id cluster turn (.inner () metadata)).phase.Within 0 ∨
        ((job.iterate id cluster turn (.inner () metadata)).phase =
            .live (job.future (.inner () metadata)) ∧
          (turn.isReady = true → ∃ ticket request limit,
            (.inner () metadata : RunState (redis backend) Head ReqBody) =
                .store (.waiting ticket) request limit ∧
              cluster.answer? ticket = none)) := by
    intro metadata
    simp only [iterate]
    cases hpoll : turn.inner with
    | pending => exact .inr ⟨rfl, by simp [Turn.isReady, Poll.isReady, hpoll]⟩
    | ready result => exact .inl trivial
  cases hlive with
  | skipped => exact hinner _
  | failedOpen => exact hinner _
  | admitted => exact hinner _
  | refused => exact .inl trivial
  | failing => exact .inl trivial
  | rejected => exact .inl trivial
  | limiting key hkey =>
    simp only [iterate]
    rcases hpoll : turn.limit with _ | ⟨e | limit⟩
    · exact .inr ⟨rfl, by simp [Turn.isReady, Poll.isReady, hpoll]⟩
    · exact .inl (by simp [Phase.Within, future, pollsLeft])
    · left
      simp only [increment, RedisStore.begin]
      cases checkedWindowMillis job.limiter.window <;> simp [Phase.Within, future, pollsLeft]
  | charging key future limit seen hkey hopen =>
    simp only [iterate]
    cases future with
    | refused e => exact .inl (settle_within limit _)
    | unsent m =>
      cases hlink : turn.store with
      | busy => exact .inr ⟨rfl, by simp [Turn.isReady, Link.isReady, hlink]⟩
      | up => exact .inl (Nat.le_refl 2)
      | failed e => exact .inl ((settle_within limit _).mono (Nat.le_succ 1))
    | waiting ticket =>
      cases hlink : turn.store with
      | busy => exact .inr ⟨rfl, by simp [Turn.isReady, Link.isReady, hlink]⟩
      | up =>
        cases hanswer : cluster.answer? ticket with
        | none =>
          have hpoll : RedisFuture.poll backend .up (.waiting ticket, cluster) =
              .ok .pending (.waiting ticket, cluster) := by
            simp only [RedisFuture.poll, hanswer]
          rw [hpoll]
          exact .inr ⟨rfl, fun _ => ⟨ticket, _, limit, rfl, hanswer⟩⟩
        | some answer =>
          simp only [RedisFuture.poll, hanswer]
          exact .inl (settle_within limit _)
      | failed e => exact .inl (settle_within limit _)
    | finished => exact False.elim hplaced

end Job

/-! ## Every request finishes -/

namespace System

variable {jobs : ℕ → Job (redis backend) Head ReqBody ResBody}
  {s : System (redis backend) Head ReqBody ResBody E} {id : ℕ}

/-- No step but its being dropped takes a request away from its response. -/
theorem Sound.within_step (h : s.Sound jobs) {event : Event (redis backend) ResBody E}
    (hevent : event ≠ .drop id) {n : ℕ} (hwithin : (s.phases id).Within n) :
    ((s.step jobs event).phases id).Within n := by
  rcases h.step_request event id with hrests | ⟨-, hphase⟩ |
    ⟨turn, state, -, hphase, hlive, hplaced, heq⟩ | ⟨hdrop, -⟩
  · rwa [hrests.phase]
  · rw [hphase] at hwithin
    exact False.elim hwithin
  · rw [hphase] at hwithin
    rw [heq]
    simp only [System.commit, Function.update_self]
    rcases Job.iterate_nearer turn hlive hplaced with hnearer | ⟨hstays, -⟩
    · exact hnearer.mono ((Nat.sub_le _ 1).trans hwithin)
    · rwa [hstays]
  · exact absurd hdrop hevent

/-- Nor away from the answer of the server. -/
theorem Sound.served_step (h : s.Sound jobs) {event : Event (redis backend) ResBody E}
    (hevent : event ≠ .drop id) (hwithin : (s.phases id).Within 2)
    (hserved : (s.phases id).Served s.store) :
    ((s.step jobs event).phases id).Served (s.step jobs event).store := by
  have hgrows := h.prefix_step event
  rcases h.step_request event id with hrests | ⟨-, hphase⟩ |
    ⟨turn, state, -, hphase, hlive, hplaced, heq⟩ | ⟨hdrop, -⟩
  · rw [hrests.phase]
    exact hserved.mono hgrows
  · rw [hphase] at hwithin
    exact False.elim hwithin
  · rw [hphase] at hwithin hserved
    rw [heq] at hgrows ⊢
    simp only [System.commit, Function.update_self] at hgrows ⊢
    rcases Job.iterate_nearer turn hlive hplaced with hnearer | ⟨hstays, -⟩
    · exact (hnearer.mono (Nat.sub_le_sub_right hwithin 1)).served _
    · rw [hstays]
      exact hserved.mono hgrows
  · exact absurd hdrop hevent

/-- A poll that finds nothing pending comes nearer, unless the command of the request is not
executed. -/
theorem Sound.nearer_step (h : s.Sound jobs) {event : Event (redis backend) ResBody E}
    (hevent : event.isReadyPoll id = true) {n : ℕ} (hwithin : (s.phases id).Within (n + 1))
    (hserved : 2 ≤ n ∨ (s.phases id).Served s.store) :
    ((s.step jobs event).phases id).Within n := by
  obtain ⟨turn, rfl, hready⟩ : ∃ turn, event = .poll id turn ∧ turn.isReady = true := by
    cases event with
    | poll other turn =>
      obtain ⟨hother, hready⟩ := Bool.and_eq_true_iff.mp hevent
      exact ⟨turn, by rw [of_decide_eq_true hother], hready⟩
    | _ => exact absurd hevent Bool.false_ne_true
  cases hphase : s.phases id with
  | live future =>
    obtain ⟨state, hstate, hlive⟩ := h.told.live hphase
    have hplaced := h.live_placed hstate
    rw [hstate] at hwithin hserved
    have hleft : pollsLeft state ≤ n + 1 := hwithin
    rw [step_poll hstate]
    simp only [System.commit, Function.update_self]
    rcases Job.iterate_nearer turn hlive hplaced with hnearer | ⟨hstays, hwaits⟩
    · exact hnearer.mono (Nat.sub_le_of_le_add hleft)
    · obtain ⟨ticket, request, limit, rfl, hanswer⟩ := hwaits hready
      rcases hserved with hn | hserved
      · rw [hstays]
        exact hn
      · have hsome := hserved ticket request limit rfl
        rw [hanswer] at hsome
        exact absurd hsome Bool.false_ne_true
  | finished result =>
    simp only [System.step, hphase]
    trivial
  | _ =>
    rw [hphase] at hwithin
    exact False.elim hwithin

/-- A request in progress is at most four polls away. -/
theorem within_four {future : RunFuture (redis backend) Head ReqBody ResBody E}
    (hphase : s.phases id = .live future) : (s.phases id).Within 4 := by
  rw [hphase]
  simp only [Phase.Within]
  rcases future.state with _ | ⟨_ | _ | _ | _⟩ | _ | _ | _ <;> simp [pollsLeft]

/-- The server has answered a request whose commands are executed. -/
theorem Sound.served_of_executed (h : s.Sound jobs)
    (hexecuted : ∀ m ∈ s.store.sent, m.id = id → id ∈ s.executedIds) :
    (s.phases id).Served s.store := by
  cases hphase : s.phases id with
  | live future =>
    intro ticket request limit hstate
    have hplaced := h.placed id
    rw [hphase] at hplaced
    have hplaced : (jobs id).Placed id s.store future.state := hplaced
    rw [hstate] at hplaced
    obtain ⟨-, m, hm, hid⟩ := hplaced
    obtain ⟨x, hx, hxid⟩ := List.mem_map.mp (hexecuted m (List.mem_of_getElem? hm) hid)
    exact h.linear.isSome_answer? h.nodup_sent hm hx (hxid.trans hid.symm)
  | _ => trivial

/-- The server has answered what the request waits for, and the response is at most `n` polls
away. -/
structure Near (jobs : ℕ → Job (redis backend) Head ReqBody ResBody) (id n : ℕ)
    (s : System (redis backend) Head ReqBody ResBody E) : Prop where
  sound : s.Sound jobs
  within : (s.phases id).Within n
  served : (s.phases id).Served s.store
  le_two : n ≤ 2

/-- Every step but its being dropped keeps a request near. -/
theorem Near.step {n : ℕ} (h : Near jobs id n s) {event : Event (redis backend) ResBody E}
    (hevent : event ≠ .drop id) : Near jobs id n (s.step jobs event) where
  sound := h.sound.step event
  within := h.sound.within_step hevent h.within
  served := h.sound.served_step hevent (h.within.mono h.le_two) h.served
  le_two := h.le_two

/-- A poll that finds nothing pending brings it nearer. -/
theorem Near.poll {n : ℕ} (h : Near jobs id (n + 1) s) {event : Event (redis backend) ResBody E}
    (hevent : event ≠ .drop id) (hready : event.isReadyPoll id = true) :
    Near jobs id n (s.step jobs event) where
  sound := h.sound.step event
  within := h.sound.nearer_step hready h.within (.inr h.served)
  served := (h.step hevent).served
  le_two := (Nat.le_succ n).trans h.le_two

/-- Two polls bring a request in progress as far as the answer of the server. -/
theorem Sound.within_after (h : s.Sound jobs)
    {future : RunFuture (redis backend) Head ReqBody ResBody E} (hlive : s.phases id = .live future)
    {events : List (Event (redis backend) ResBody E)}
    (hkept : ∀ event ∈ events, event ≠ .drop id)
    (hpolls : 2 ≤ events.countP (Event.isReadyPoll id)) :
    ((s.after jobs events).phases id).Within 2 := by
  let P := fun n (s : System (redis backend) Head ReqBody ResBody E) =>
    s.Sound jobs ∧ (s.phases id).Within (n + 2)
  have hkeeps : ∀ n s event, event ≠ .drop id → P n s → P n (s.step jobs event) :=
    fun n s event hevent h => ⟨h.1.step event, h.1.within_step hevent h.2⟩
  have hgains : ∀ n s event, event ≠ .drop id → event.isReadyPoll id = true → P (n + 1) s →
      P n (s.step jobs event) :=
    fun n s event _ hready h =>
      ⟨h.1.step event, h.1.nearer_step hready h.2 (.inl (Nat.le_add_left 2 n))⟩
  exact (Remote.countdown hkeeps hgains hkept hpolls ⟨h, within_four hlive⟩).2

/-- Two more bring it from there to its response. -/
theorem Near.finished (h : Near jobs id 2 s) {events : List (Event (redis backend) ResBody E)}
    (hkept : ∀ event ∈ events, event ≠ .drop id)
    (hpolls : 2 ≤ events.countP (Event.isReadyPoll id)) :
    ∃ result, (s.after jobs events).phases id = .finished result := by
  have hnear : Near jobs id 0 (s.after jobs events) :=
    Remote.countdown (fun _ _ _ hevent h => h.step hevent)
      (fun _ _ _ hevent hready h => h.poll hevent hready) hkept hpolls h
  exact hnear.within.finished

/-- **Every request finishes.** Whatever the other requests do, however late the server is and
whatever fails: a request in progress that is not dropped has its response after two polls that find
nothing pending, the execution of its command if one has been sent by then, and two more such
polls. -/
theorem every_request_finishes (jobs : ℕ → Job (redis backend) Head ReqBody ResBody) (id : ℕ)
    (before first second : List (Event (redis backend) ResBody E))
    {future : RunFuture (redis backend) Head ReqBody ResBody E}
    (hlive : (start.after jobs before).phases id = .live future)
    (hkept : ∀ event ∈ first ++ second, event ≠ .drop id)
    (hfirst : 2 ≤ first.countP (Event.isReadyPoll id))
    (hexecuted : ∀ m ∈ (start.after jobs (before ++ first)).store.sent, m.id = id →
      id ∈ (start.after jobs (before ++ first)).executedIds)
    (hsecond : 2 ≤ second.countP (Event.isReadyPoll id)) :
    let s := start.after jobs (before ++ first ++ second)
    (∃ result, s.phases id = .finished result) ∧ (jobs id).Ended (s.acts id) := by
  intro s
  have hsound : (start.after jobs before).Sound jobs := sound_start.after before
  have hhalf : (start.after jobs (before ++ first)).Sound jobs :=
    sound_start.after (before ++ first)
  have hwithin := hsound.within_after hlive
    (fun event hevent => hkept event (List.mem_append_left _ hevent)) hfirst
  rw [← after_append] at hwithin
  have hnear : Near jobs id 2 (start.after jobs (before ++ first)) :=
    ⟨hhalf, hwithin, hhalf.served_of_executed hexecuted, Nat.le_refl 2⟩
  obtain ⟨result, hresult⟩ := hnear.finished
    (fun event hevent => hkept event (List.mem_append_right _ hevent)) hsecond
  rw [← after_append] at hresult
  have htold := (sound_start.after (before ++ first ++ second) : s.Sound jobs).told id
  rw [hresult] at htold
  exact ⟨⟨result, hresult⟩, htold⟩

/-- Two replicas, in turns. The command of the second request is executed before that of the first,
which is polled in between without an answer. -/
theorem every_request_finishes_two :
    let before : List (Event (redis (.exact true)) Unit Unit) :=
      [.call 0, .call 1, .poll 1 readyTurn]
    let first : List (Event (redis (.exact true)) Unit Unit) :=
      [.poll 0 readyTurn, .poll 1 readyTurn, .serve 0 5, .poll 0 readyTurn, .poll 0 readyTurn,
        .drop 1, .serve 1 6]
    let second : List (Event (redis (.exact true)) Unit Unit) :=
      [.poll 0 .idle, .poll 0 readyTurn, .poll 0 readyTurn]
    let s := start.after twoJobs (before ++ first ++ second)
    s.executedIds = [1, 0] ∧ (∃ result, s.phases 0 = .finished result) ∧
      (twoJobs 0).Ended (s.acts 0) := by
  intro before first second s
  refine ⟨rfl, every_request_finishes twoJobs 0 before first second rfl ?_ (by decide) ?_
    (by decide)⟩
  · simp [first, second]
  · intro m _ _
    decide

/-! ## Dropped requests -/

/-- A dropped request stays as it is. -/
theorem Sound.rests_dropped (h : s.Sound jobs) (hphase : s.phases id = .dropped)
    (events : List (Event (redis backend) ResBody E)) : Rests id s (s.after jobs events) := by
  induction events generalizing s with
  | nil => exact .refl id s
  | cons event events ih =>
    have hstep : Rests id s (s.step jobs event) := by
      rcases h.step_request event id with hrests | ⟨-, hunused⟩ | ⟨turn, state, -, hlive, -⟩ |
        ⟨-, future, hlive⟩
      · exact hrests
      · exact absurd (hphase.symm.trans hunused) (by simp)
      · exact absurd (hphase.symm.trans hlive) (by simp)
      · exact absurd (hphase.symm.trans hlive) (by simp)
    exact hstep.trans (ih (h.step event) (hstep.phase.trans hphase))

/-- A command was sent for an executed request. -/
theorem Sound.sends_pos (h : s.Sound jobs) (hid : id ∈ s.executedIds) : 0 < sends s.store id := by
  obtain ⟨x, hx, rfl⟩ := List.mem_map.mp hid
  exact List.count_pos_iff.mpr (List.mem_map_of_mem (h.linear.mem_sent hx))

/-- **Cancellation.** To drop a request in progress is, for the server and all other requests, never
to poll it again: whatever happens later, the run ends as the run without any later event of the
request. The request itself does and sends nothing more. The server can still execute its command
if that was in flight, but not if the request had been told its usage. -/
theorem cancellation (jobs : ℕ → Job (redis backend) Head ReqBody ResBody) (id : ℕ)
    (before later : List (Event (redis backend) ResBody E))
    {future : RunFuture (redis backend) Head ReqBody ResBody E}
    (hlive : (start.after jobs before).phases id = .live future) :
    let s₀ := start.after jobs before
    let s := s₀.after jobs (.drop id :: later)
    s = (s₀.after jobs (later.filter fun event => !event.concerns id)).withPhase id .dropped ∧
      s.acts id = s₀.acts id ∧ sends s.store id = sends s₀.store id ∧
      (id ∈ s.executedIds → id ∉ s₀.executedIds →
        (∃ m ∈ s₀.store.sent, m.id = id) ∧ ∀ u, (id, Act.answer (.ok u)) ∉ s₀.history) := by
  intro s₀ s
  have hsound₀ : s₀.Sound jobs := sound_start.after before
  have hdrop : s₀.step jobs (.drop id) = s₀.withPhase id .dropped := by
    simp only [step, s₀, hlive, withPhase]
  have hsound : s.Sound jobs := hsound₀.after (.drop id :: later)
  have hrests : Rests id (s₀.withPhase id .dropped) s := by
    have hdropped := hsound₀.step (.drop id)
    rw [hdrop] at hdropped
    have hlater := hdropped.rests_dropped (Function.update_self ..) later
    rwa [← hdrop] at hlater ⊢
  refine ⟨?_, hrests.acts, hrests.sends, fun hid hnew => ⟨?_, fun u hu => ?_⟩⟩
  · exact (congrArg (System.after jobs · later) hdrop).trans (after_dropped s₀ later)
  · have hpos := hsound.sends_pos hid
    rw [hrests.sends] at hpos
    exact List.mem_map.mp (List.count_pos_iff.mp hpos)
  · obtain ⟨x, hx, hxid, -⟩ := hsound₀.executed_of_usage (mem_acts.mpr hu)
    exact hnew (List.mem_map.mpr ⟨x, hx, hxid⟩)

/-- A request is dropped while its command is in flight. The command is executed, and another
request goes on as if the first had just not been polled. -/
theorem cancellation_in_flight :
    let before : List (Event (redis (.exact true)) Unit Unit) :=
      [.call 0, .poll 0 readyTurn, .poll 0 readyTurn]
    let later : List (Event (redis (.exact true)) Unit Unit) :=
      [.serve 0 5, .poll 0 readyTurn, .call 1, .poll 1 readyTurn, .poll 1 readyTurn, .serve 1 7]
    let s₀ := start.after twoJobs before
    let s := s₀.after twoJobs (.drop 0 :: later)
    s.executedIds = [0, 1] ∧ s.acts 0 = s₀.acts 0 ∧ (∃ m ∈ s₀.store.sent, m.id = 0) ∧
      s.phases 1 = (s₀.after twoJobs [.serve 0 5, .call 1, .poll 1 readyTurn, .poll 1 readyTurn,
        .serve 1 7]).phases 1 := by
  intro before later s₀ s
  obtain ⟨hsame, hacts, -, hcharged⟩ :=
    cancellation twoJobs 0 before later rfl
  refine ⟨by decide, hacts, (hcharged (by decide) (by decide)).1, ?_⟩
  exact congrArg (fun s => s.phases 1) hsame

end System

end TowerRateLimiter
