import TowerRateLimiter.System.ReplicaAdmission
import TowerRateLimiter.System.Responses

/-!
# What the clients of replicas read

A request that has ended holds the response its client gets. It comes from the inner service or from
the factory, and what the limiter adds to it are the fields of the one usage that the request was
told. On a healthy server that usage is the number of the request in its window, so the clients of
all replicas together read the numbers of one counter.

Main result: `responses_over_replicas`.
-/

namespace TowerRateLimiter

open Rust Redis

variable {Head ReqBody ResBody E : Type} {backend : Backend}

namespace System

/-- **What the clients of replicas read.** In every run, a request that has its response and was told
a usage reads the fields of that usage: on the response that its inner future returned if the usage
is within its limit, on the factory's with a `Retry-After` otherwise. On a healthy server the usage
is its number in its window, so the remaining requests that all clients of a window read together
count down from the limit. A request that was told no usage reads what its inner future returned as
it is, if it was skipped or its limiter failed open, and else the factory's response to an error. -/
theorem responses_over_replicas (jobs : ℕ → Job (redis backend) Head ReqBody ResBody)
    (events : List (Event (redis backend) ResBody E)) :
    let s := start.after jobs events
    ∀ id response, s.phases id = .finished response →
      (∀ u, (id, Act.answer (.ok u)) ∈ s.history → u.used ≠ 0 →
        ∃ limit, (id, Act.limit limit) ∈ s.history ∧
          let p := (jobs id).limiter.policy limit u
          let texts := p.fieldTexts (jobs id).limiter.rateLimitFields
          (if u.used > limit then
            response = .ok (((jobs id).limiter.build (jobs id).request (.rateLimited p)).withLines
              (textLines (texts ++ [p.retryAfterText])))
          else ∃ r, Returned id events r ∧ response = r.map (·.withLines (textLines texts))) ∧
          (s.Healthy jobs → ∀ key serial j x, (s.inWindow jobs key serial)[j]? = some x →
            x.1.command.id = id → p.used.toNat = j + 1 ∧
              p.remaining.toNat = limit.toNat - (j + 1))) ∧
      ((∀ u, (id, Act.answer (.ok u)) ∈ s.history → u.used = 0) →
        (Returned id events response ∧ (id, Act.call (jobs id).request) ∈ s.history ∧
          ((jobs id).limiter.skips (jobs id).request = true ∨
            (jobs id).limiter.storeFailureMode = .allow)) ∨
        ∃ e, response = .ok ((jobs id).limiter.build (jobs id).request (.error e)) ∧
          ∀ request, (id, Act.call request) ∉ s.history) := by
  intro s id response hphase
  have hsound : s.Sound jobs := sound_start.after events
  have hresponds := responds_after jobs events hphase
  refine ⟨fun u hu hzero => ?_, fun hnone => ?_⟩
  · obtain ⟨limit, hlimit, hresponse⟩ := hresponds.of_usage (mem_acts.mpr hu) rfl hzero
    refine ⟨limit, mem_acts.mp hlimit, hresponse, fun hhealthy key serial j x hx hid => ?_⟩
    subst hid
    have hused : u.used.toNat = j + 1 := by
      rw [← count_of_getElem? hx]
      exact (hhealthy.used_eq hsound (List.mem_of_mem_filter (List.mem_of_getElem? hx))
        (mem_acts.mpr hu)).1
    exact ⟨hused, by rw [Policy.toNat_remaining]; exact congrArg (limit.toNat - ·) hused⟩
  · have hfailed : ∀ result, Act.answer result ∈ s.acts id → Failed result := by
      rintro _ hresult u rfl
      exact hnone u (mem_acts.mp hresult)
    simpa only [mem_acts] using hresponds.of_unanswered hfailed

/-- The second request of the window is beyond its limit of one: nothing remains for it, and its
client is told to come back in a second. -/
theorem responses_over_replicas_two :
    let s := start.after twoJobs twoReplicas
    let p := (twoJobs 1).limiter.policy 1 ⟨2, Duration.ofMillis 8⟩
    (1, Act.answer (.ok ⟨2, Duration.ofMillis 8⟩)) ∈ s.history ∧ p.remaining.toNat = 0 ∧
      s.phases 1 = .finished (.ok (((twoJobs 1).limiter.build (twoJobs 1).request
        (.rateLimited p)).withLines (textLines [("retry-after", "1")]))) := by
  intro s p
  have htold : (1, Act.answer (.ok ⟨2, Duration.ofMillis 8⟩)) ∈ s.history :=
    List.mem_of_getElem? (i := 2) rfl
  obtain ⟨response, hresponse⟩ : ∃ response, s.phases 1 = .finished response := ⟨_, rfl⟩
  obtain ⟨limit, hlimit, htexts, hnumber⟩ :=
    (responses_over_replicas twoJobs twoReplicas 1 response hresponse).1 _ htold (by decide)
  have hone : (s.history.all fun x => x.2.limit?.all (· = 1)) = true := rfl
  obtain rfl : limit = 1 := by simpa [Act.limit?] using List.all_eq_true.mp hone _ hlimit
  rw [if_pos (by decide)] at htexts
  refine ⟨htold, (hnumber healthy_twoReplicas "rl:p:c" 0 1 _ rfl rfl).2, ?_⟩
  rw [hresponse, htexts]
  rfl

end System

end TowerRateLimiter
