import TowerRateLimiter.System.ReplicaProgress
import TowerRateLimiter.System.Responses

/-!
# Replicas without a connection

A request whose connection is down sends nothing: its future is told a client error, and what
becomes of the request is up to the failure mode of its limiter. Others may be served all the while.

Main result: `outage`.
-/

namespace TowerRateLimiter

open Rust Redis

variable {Head ReqBody ResBody E : Type} {backend : Backend}

/-! ## Requests without a connection -/

namespace System

variable {jobs : ℕ → Job (redis backend) Head ReqBody ResBody}
  {s : System (redis backend) Head ReqBody ResBody E} {id : ℕ}

/-- The request is not polled while its connection works. -/
def Unconnected (id : ℕ) (event : Event (redis backend) ResBody E) : Prop :=
  ∀ turn, event = .poll id turn → turn.store ≠ .up

/-- Nothing has been sent for the request. -/
structure Unheard (jobs : ℕ → Job (redis backend) Head ReqBody ResBody) (id : ℕ)
    (s : System (redis backend) Head ReqBody ResBody E) : Prop where
  sound : s.Sound jobs
  sends : sends s.store id = 0

/-- A poll without a connection sends nothing. -/
theorem store_iterate (job : Job (redis backend) Head ReqBody ResBody)
    {turn : Turn (redis backend) ResBody E} (hturn : turn.store ≠ .up) (cluster : Cluster)
    (state : RunState (redis backend) Head ReqBody) :
    (job.iterate id cluster turn state).store = cluster := by
  cases state with
  | limit future request key =>
    simp only [Job.iterate]
    split <;> rfl
  | store future request limit =>
    simp only [Job.iterate]
    cases hlink : turn.store with
    | up => exact absurd hlink hturn
    | busy => cases future <;> rfl
    | failed e => cases future <;> rfl
  | inner future metadata =>
    simp only [Job.iterate]
    split <;> rfl
  | ready response => cases response <;> rfl
  | done => rfl

theorem Unheard.step (h : Unheard jobs id s) {event : Event (redis backend) ResBody E}
    (hevent : Unconnected id event) : Unheard jobs id (s.step jobs event) := by
  refine ⟨h.sound.step event, ?_⟩
  rcases h.sound.step_request event id with hrests | ⟨rfl, hphase⟩ |
    ⟨turn, state, rfl, hphase, -, -, heq⟩ | ⟨rfl, future, hphase⟩
  · rw [hrests.sends, h.sends]
  · rw [step_call hphase]
    simp only [System.commit, (jobs id).store_send, h.sends]
  · rw [heq]
    simp only [System.commit, store_iterate (jobs id) (hevent turn rfl), h.sends]
  · simp only [System.step, hphase, h.sends]

theorem Unheard.after (h : Unheard jobs id s) {events : List (Event (redis backend) ResBody E)}
    (hdown : ∀ event ∈ events, Unconnected id event) : Unheard jobs id (s.after jobs events) := by
  induction events generalizing s with
  | nil => exact h
  | cons event events ih =>
    exact ih (h.step (hdown event List.mem_cons_self))
      fun event hevent => hdown event (List.mem_cons_of_mem _ hevent)

/-- No command of the request is executed. -/
theorem Unheard.notMem_executedIds (h : Unheard jobs id s) : id ∉ s.executedIds :=
  fun hid => absurd h.sends (h.sound.sends_pos hid).ne'

/-- It waits for nothing. -/
theorem Unheard.served (h : Unheard jobs id s) : (s.phases id).Served s.store := by
  refine h.sound.served_of_executed fun m hm hid => ?_
  have hpos : 0 < TowerRateLimiter.sends s.store id :=
    List.count_pos_iff.mpr (List.mem_map.mpr ⟨m, hm, hid⟩)
  exact absurd h.sends hpos.ne'

/-- Four polls bring it from the start to its response. -/
theorem Unheard.finished (h : Unheard jobs id s)
    {future : RunFuture (redis backend) Head ReqBody ResBody E} (hlive : s.phases id = .live future)
    {events : List (Event (redis backend) ResBody E)}
    (hdown : ∀ event ∈ events, Unconnected id event) (hkept : ∀ event ∈ events, event ≠ .drop id)
    (hpolls : 4 ≤ events.countP (Event.isReadyPoll id)) :
    ∃ result, (s.after jobs events).phases id = .finished result := by
  let P := fun n (s : System (redis backend) Head ReqBody ResBody E) =>
    Unheard jobs id s ∧ (s.phases id).Within n
  let allowed := fun event : Event (redis backend) ResBody E =>
    Unconnected id event ∧ event ≠ .drop id
  have hkeeps : ∀ n s event, allowed event → P n s → P n (s.step jobs event) :=
    fun n s event hevent h => ⟨h.1.step hevent.1, h.1.sound.within_step hevent.2 h.2⟩
  have hgains : ∀ n s event, allowed event → event.isReadyPoll id = true → P (n + 1) s →
      P n (s.step jobs event) :=
    fun n s event hevent hready h =>
      ⟨h.1.step hevent.1, h.1.sound.nearer_step hready h.2 (.inr h.1.served)⟩
  have hallowed : ∀ event ∈ events, allowed event :=
    fun event hevent => ⟨hdown event hevent, hkept event hevent⟩
  exact (Remote.countdown hkeeps hgains hallowed hpolls ⟨h, within_four hlive⟩).2.finished

/-- **Outages.** A request whose connection never works while it is polled is not charged, whatever
the others do: nothing is sent or executed for it, and it is told an error. It reaches the inner
service only if it is skipped or its limiter fails open, and then as it is. Once it has been told the
error, its response is that of the inner service or of the factory for that error, as its limiter's
failure mode says. And it does not hang: four polls that find nothing pending are enough. -/
theorem outage (jobs : ℕ → Job (redis backend) Head ReqBody ResBody) (id : ℕ)
    (events : List (Event (redis backend) ResBody E))
    (hdown : ∀ event ∈ events, Unconnected id event) :
    let s := start.after jobs events
    (sends s.store id = 0 ∧ id ∉ s.executedIds) ∧
    (∀ result, (id, Act.answer result) ∈ s.history →
      (∃ e, checkedWindowMillis (jobs id).limiter.window = .error e ∧
        result = .error e.toRateLimitError) ∨
      ∃ e, Disconnected id events e ∧ result = usageOf backend (.error e)) ∧
    (∀ request, (id, Act.call request) ∈ s.history → request = (jobs id).request ∧
      ((jobs id).limiter.skips (jobs id).request = true ∨
        (jobs id).limiter.storeFailureMode = .allow)) ∧
    (∀ response result, s.phases id = .finished response → (id, Act.answer result) ∈ s.history →
      ((jobs id).limiter.storeFailureMode = .allow ∧ Returned id events response ∧
        (id, Act.call (jobs id).request) ∈ s.history) ∨
      ((jobs id).limiter.storeFailureMode = .reject ∧
        response = .ok ((jobs id).limiter.build (jobs id).request (.error (chargeError result))) ∧
        (id, Act.build (jobs id).request (.error (chargeError result))) ∈ s.history ∧
        ∀ request, (id, Act.call request) ∉ s.history)) ∧
    ∀ before later future, events = before ++ later →
      (start.after jobs before).phases id = .live future →
      (∀ event ∈ later, event ≠ .drop id) → 4 ≤ later.countP (Event.isReadyPoll id) →
      ∃ response, s.phases id = .finished response := by
  intro s
  have hstart : Unheard jobs id (start : System (redis backend) Head ReqBody ResBody E) :=
    ⟨sound_start, rfl⟩
  have hs : Unheard jobs id s := hstart.after hdown
  have hfailed : ∀ result, Act.answer result ∈ s.acts id → Failed result := by
    rintro _ hresult u rfl
    obtain ⟨x, hx, hid, -⟩ := hs.sound.executed_of_usage hresult
    exact absurd (List.mem_map.mpr ⟨x, hx, hid⟩) hs.notMem_executedIds
  refine ⟨⟨hs.sends, hs.notMem_executedIds⟩, fun result hresult => ?_, fun request hcall => ?_,
    fun response result hphase hresult => ?_, fun before later future hevents hlive hkept hpolls => ?_⟩
  · have hanswered : (jobs id).Answered id (Disconnected id events) s.store result :=
      answered_after jobs events (mem_acts.mpr hresult)
    cases hanswered with
    | refused e he => exact .inl ⟨e, he, rfl⟩
    | lost e he => exact .inr ⟨e, he, rfl⟩
    | executed x hx hid => exact absurd (List.mem_map.mpr ⟨x, hx, hid⟩) hs.notMem_executedIds
  · exact (hs.sound.told id).course.call_of_failed hfailed (mem_acts.mpr hcall)
  · have hresponds := responds_after jobs events hphase
    simpa only [mem_acts] using hresponds.of_failed (mem_acts.mpr hresult)
      (hfailed result (mem_acts.mpr hresult))
  · subst hevents
    have hbefore := hstart.after fun event hevent => hdown event (List.mem_append_left _ hevent)
    have hlater := hbefore.finished hlive
      (fun event hevent => hdown event (List.mem_append_right _ hevent)) hkept hpolls
    rwa [← after_append] at hlater

/-- The connection of the first request fails while the second one is charged. The first is answered
with the error of its connection and is not counted. -/
theorem outage_first :
    let before : List (Event (redis (.exact true)) Unit Unit) := [.call 0, .call 1]
    let later : List (Event (redis (.exact true)) Unit Unit) :=
      [.poll 0 downTurn, .poll 1 readyTurn, .poll 0 downTurn, .poll 1 readyTurn, .serve 0 5,
        .poll 0 downTurn, .poll 0 downTurn]
    let s := start.after twoJobs (before ++ later)
    let result := usageOf (.exact true) (.error .connection)
    s.executedIds = [1] ∧ (0, Act.answer result) ∈ s.history ∧
      s.phases 0 = .finished (.ok ((twoJobs 0).limiter.build (twoJobs 0).request
        (.error (chargeError result)))) ∧
      ∀ request, (0, Act.call request) ∉ s.history := by
  intro before later s result
  have hdown : ∀ event ∈ before ++ later, Unconnected 0 event := by
    rintro event hevent turn rfl
    obtain rfl : turn = downTurn := by simpa [before, later] using hevent
    simp [downTurn]
  have htold : (0, Act.answer result) ∈ s.history := List.mem_of_getElem? (i := 2) rfl
  obtain ⟨-, -, -, hdecided, hfinishes⟩ := outage twoJobs 0 (before ++ later) hdown
  obtain ⟨response, hresponse⟩ := hfinishes before later _ rfl rfl (by simp [later]) (by decide)
  rcases hdecided response result hresponse htold with ⟨hallow, -⟩ | ⟨-, hresult, -, hcalls⟩
  · exact absurd hallow (by decide)
  · exact ⟨by decide, htold, hresult ▸ hresponse, hcalls⟩

end System

end TowerRateLimiter
