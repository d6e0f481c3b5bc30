import TowerRateLimiter.System.Story
import Mathlib.Data.List.Induction

/-!
# The responses of a run

A request that has ended holds the response its client gets. It comes from the inner service or from
the factory, and what the limiter adds to it are the lines of the one usage that the request was
told. `Responds` lists the ways in which a response can come about, with the lines as the texts that
the client reads; `responds_after` says that a run has no other.
-/

namespace TowerRateLimiter

open Rust

variable {S : SharedStore} {Head ReqBody ResBody E : Type}

/-- The inner future of request `id` returned `r` to a poll of the run. -/
def Returned (id : ℕ) (events : List (Event S ResBody E)) (r : Except E (Response ResBody)) :
    Prop :=
  ∃ turn, Event.poll id turn ∈ events ∧ turn.inner = .ready r

namespace Job

/-- The response of a request by what it has done, where `returned` is what its inner future can
have returned. -/
inductive Responds (job : Job S Head ReqBody ResBody)
    (returned : Except E (Response ResBody) → Prop) :
    Except E (Response ResBody) → List (Act S Head ReqBody) → Prop where
  | uncharged {acts : List (Act S Head ReqBody)} {r : Except E (Response ResBody)}
      (h : job.LiveStory (.inner () none) acts) (hr : returned r) : Responds job returned r acts
  | admitted {metadata : ResponseMetadata} {acts : List (Act S Head ReqBody)}
      {r : Except E (Response ResBody)} (h : job.LiveStory (.inner () (some metadata)) acts)
      (hr : returned r) : Responds job returned
        (r.map (·.withLines (textLines (metadata.policy.fieldTexts metadata.fields)))) acts
  | error {request : Request Head ReqBody} {e : RateLimitError} {acts : List (Act S Head ReqBody)}
      (h : job.LiveStory (.ready (.error request e)) acts) :
      Responds job returned (.ok (job.limiter.build request (.error e)))
        (acts ++ [.build request (.error e)])
  | rateLimited {request : Request Head ReqBody} {metadata : ResponseMetadata}
      {acts : List (Act S Head ReqBody)}
      (h : job.LiveStory (.ready (.rateLimited request metadata)) acts) :
      Responds job returned
        (.ok ((job.limiter.build request (.rateLimited metadata.policy)).withLines
          (textLines (metadata.policy.fieldTexts metadata.fields ++
            [metadata.policy.retryAfterText]))))
        (acts ++ [.build request (.rateLimited metadata.policy)])

variable {job : Job S Head ReqBody ResBody}
  {returned returned' : Except E (Response ResBody) → Prop}
  {response : Except E (Response ResBody)} {acts : List (Act S Head ReqBody)}

theorem Responds.mono (h : job.Responds returned response acts)
    (hreturned : ∀ r, returned r → returned' r) : job.Responds returned' response acts := by
  cases h with
  | uncharged hlive hr => exact .uncharged hlive (hreturned _ hr)
  | admitted hlive hr => exact .admitted hlive (hreturned _ hr)
  | error hlive => exact .error hlive
  | rateLimited hlive => exact .rateLimited hlive

/-- A request that is sent is in progress. -/
theorem send_live (job : Job S Head ReqBody ResBody) (store : S.Shared) :
    ∃ future, (job.send (E := E) store).phase = .live future := by
  unfold send
  split
  · exact ⟨_, rfl⟩
  · split <;> exact ⟨_, rfl⟩

/-- A request whose inner future returns. -/
theorem responds_inner {metadata : Option ResponseMetadata} {r : Except E (Response ResBody)}
    (h : job.LiveStory (.inner () metadata) acts) (hr : returned r) :
    job.Responds returned (r.map (appendInnerResponseHeaders · metadata)) acts := by
  cases metadata with
  | none =>
    have hsame : r.map (appendInnerResponseHeaders · none) = r := by cases r <;> rfl
    rw [hsame]
    exact .uncharged h hr
  | some metadata =>
    simp only [appendInnerResponseHeaders_texts]
    exact .admitted h hr

/-- The poll that ends a request. -/
theorem iterate_responds {id : ℕ} {store : S.Shared} {turn : Turn S ResBody E}
    {state : RunState S Head ReqBody} (h : job.LiveStory state acts)
    (hphase : (job.iterate id store turn state).phase = .finished response) :
    job.Responds (fun r => turn.inner = .ready r) response
      (acts ++ (job.iterate id store turn state).acts) := by
  have hinner : ∀ {metadata : Option ResponseMetadata} {acts : List (Act S Head ReqBody)},
      job.LiveStory (.inner () metadata) acts →
      (job.iterate id store turn (.inner () metadata)).phase = .finished response →
      job.Responds (fun r => turn.inner = .ready r) response
        (acts ++ (job.iterate id store turn (.inner () metadata)).acts) := by
    intro metadata acts hlive hphase
    simp only [iterate] at hphase ⊢
    cases hturn : turn.inner with
    | pending =>
      rw [hturn] at hphase
      exact absurd hphase (by simp)
    | ready r =>
      rw [hturn] at hphase
      obtain rfl := Phase.finished.inj hphase
      rw [List.append_nil]
      exact responds_inner hlive rfl
  cases h with
  | skipped hskip => exact hinner (.skipped hskip) hphase
  | failedOpen limit charge hcharge hfail hmode =>
    exact hinner (.failedOpen limit charge hcharge hfail hmode) hphase
  | admitted limit charge u hcharge hu hzero hle =>
    exact hinner (.admitted limit charge u hcharge hu hzero hle) hphase
  | refused e =>
    obtain rfl := Phase.finished.inj hphase
    exact .error (.refused e)
  | failing limit charge hcharge hfail hmode =>
    obtain rfl := Phase.finished.inj hphase
    exact .error (.failing limit charge hcharge hfail hmode)
  | rejected limit charge u hcharge hu hover =>
    obtain rfl := Phase.finished.inj hphase
    rw [appendRateLimitedResponseHeaders_texts]
    exact .rateLimited (.rejected limit charge u hcharge hu hover)
  | limiting key hkey =>
    simp only [iterate] at hphase
    split at hphase <;> exact absurd hphase (by simp)
  | charging key future limit seen hkey hopen =>
    simp only [iterate] at hphase
    split at hphase
    · exact absurd hphase (by simp)
    · -- the result of the charge is taken, and the request goes on
      obtain ⟨next, hnext, -⟩ := job.afterStore_eq
        (⟨store, turn, id, []⟩ : World S Head ReqBody ResBody E) job.request limit _
      exact absurd (hnext.symm.trans hphase) (by simp)
    · exact absurd hphase (by simp)

/-- **A request that was told a usage**: its response has the texts of the usage. -/
theorem Responds.of_usage (h : job.Responds returned response acts) {charge : S.Charge} {u : Usage}
    (hmem : Act.charge charge ∈ acts) (hu : S.result charge = .ok u) (hzero : u.used ≠ 0) :
    ∃ limit, Act.limit limit ∈ acts ∧
      let p := job.limiter.policy limit u
      if u.used > limit then
        response = .ok ((job.limiter.build job.request (.rateLimited p)).withLines
          (textLines (p.fieldTexts job.limiter.rateLimitFields ++ [p.retryAfterText])))
      else
        ∃ r, returned r ∧ response =
          r.map (·.withLines (textLines (p.fieldTexts job.limiter.rateLimitFields))) := by
  cases h with
  | uncharged hlive hr =>
    cases hlive with
    | skipped hskip => simp at hmem
    | failedOpen limit charge' hcharge hfail hmode =>
      obtain rfl : charge = charge' := by simpa using hmem
      exact absurd (hfail u hu) hzero
  | admitted hlive hr =>
    cases hlive with
    | admitted limit charge' v hcharge hv hzero' hle =>
      obtain rfl : charge = charge' := by simpa using hmem
      obtain rfl : u = v := Except.ok.inj (hu.symm.trans hv)
      exact ⟨limit, by simp, by rw [if_neg hle]; exact ⟨_, hr, rfl⟩⟩
  | error hlive =>
    cases hlive with
    | refused e => simp at hmem
    | failing limit charge' hcharge hfail hmode =>
      obtain rfl : charge = charge' := by simpa using hmem
      exact absurd (hfail u hu) hzero
  | rateLimited hlive =>
    cases hlive with
    | rejected limit charge' v hcharge hv hover =>
      obtain rfl : charge = charge' := by simpa using hmem
      obtain rfl : u = v := Except.ok.inj (hu.symm.trans hv)
      exact ⟨limit, by simp, by rw [if_pos hover]; rfl⟩

/-- **A request whose charge failed**: the failure mode of its limiter decides. -/
theorem Responds.of_failed (h : job.Responds returned response acts) {charge : S.Charge}
    (hmem : Act.charge charge ∈ acts) (hfailed : Failed (S.result charge)) :
    (job.limiter.storeFailureMode = .allow ∧ returned response ∧ Act.call job.request ∈ acts) ∨
      (job.limiter.storeFailureMode = .reject ∧
        response = .ok (job.limiter.build job.request (.error (chargeError (S.result charge)))) ∧
        Act.build job.request (.error (chargeError (S.result charge))) ∈ acts ∧
        ∀ request, Act.call request ∉ acts) := by
  cases h with
  | uncharged hlive hr =>
    cases hlive with
    | skipped hskip => simp at hmem
    | failedOpen limit charge' hcharge hfail hmode => exact .inl ⟨hmode, hr, by simp⟩
  | admitted hlive hr =>
    cases hlive with
    | admitted limit charge' u hcharge hu hzero hle =>
      obtain rfl : charge = charge' := by simpa using hmem
      exact absurd (hfailed u hu) hzero
  | error hlive =>
    cases hlive with
    | refused e => simp at hmem
    | failing limit charge' hcharge hfail hmode =>
      obtain rfl : charge = charge' := by simpa using hmem
      exact .inr ⟨hmode, rfl, by simp, by simp⟩
  | rateLimited hlive =>
    cases hlive with
    | rejected limit charge' u hcharge hu hover =>
      obtain rfl : charge = charge' := by simpa using hmem
      rw [hfailed u hu] at hover
      exact absurd hover (by simp)

/-- A request that was told no usage: its response is that of the inner service as it is, or of the
factory for the error. -/
theorem Responds.of_unanswered (h : job.Responds returned response acts)
    (hfailed : ∀ charge, Act.charge charge ∈ acts → Failed (S.result charge)) :
    (returned response ∧ Act.call job.request ∈ acts ∧
      (job.limiter.skips job.request = true ∨ job.limiter.storeFailureMode = .allow)) ∨
    ∃ e, response = .ok (job.limiter.build job.request (.error e)) ∧
      ∀ request, Act.call request ∉ acts := by
  cases h with
  | uncharged hlive hr =>
    cases hlive with
    | skipped hskip => exact .inl ⟨hr, by simp, .inl hskip⟩
    | failedOpen limit charge hcharge hfail hmode => exact .inl ⟨hr, by simp, .inr hmode⟩
  | admitted hlive hr =>
    cases hlive with
    | admitted limit charge u hcharge hu hzero hle =>
      exact absurd (hfailed charge (by simp) u hu) hzero
  | error hlive =>
    cases hlive with
    | refused => exact .inr ⟨_, rfl, by simp⟩
    | failing limit charge hcharge hfail hmode => exact .inr ⟨_, rfl, by simp⟩
  | rateLimited hlive =>
    cases hlive with
    | rejected limit charge u hcharge hu hover =>
      rw [hfailed charge (by simp) u hu] at hover
      exact absurd hover (by simp)

end Job

/-! ## Runs -/

namespace System

/-- **Every response of a run comes about in one of these ways.** -/
theorem responds_after (jobs : ℕ → Job S Head ReqBody ResBody) (events : List (Event S ResBody E))
    {id : ℕ} {response : Except E (Response ResBody)}
    (hphase : (start.after jobs events).phases id = .finished response) :
    (jobs id).Responds (Returned id events) response ((start.after jobs events).acts id) := by
  induction events using List.reverseRecOn with
  | nil => exact absurd hphase (by simp [System.after, start])
  | append_singleton events event ih =>
    have htold : (start.after jobs events : System S Head ReqBody ResBody E).Told jobs :=
      told_start.after events
    have hlater : ∀ r, Returned id events r → Returned id (events ++ [event]) r := by
      rintro r ⟨turn, hturn, hr⟩
      exact ⟨turn, List.mem_append_left _ hturn, hr⟩
    -- a request that the step leaves alone has its response already
    have hold : ∀ s' : System S Head ReqBody ResBody E,
        s'.phases id = (start.after jobs events).phases id →
        s'.acts id = (start.after jobs events).acts id → s'.phases id = .finished response →
        (jobs id).Responds (Returned id (events ++ [event])) response (s'.acts id) := by
      intro s' hsame hacts hphase
      rw [hacts]
      exact (ih (hsame.symm.trans hphase)).mono hlater
    rw [after_append] at hphase ⊢
    change (System.step jobs _ event).phases id = _ at hphase
    change Job.Responds _ _ _ ((System.step jobs _ event).acts id)
    rcases step_cases htold event with heq | ⟨other, rfl, -, heq⟩ |
      ⟨other, turn, state, rfl, -, hlive, heq⟩ | ⟨other, state, rfl, -, -, heq⟩ |
      ⟨move, rfl, heq⟩ <;>
    rw [heq] at hphase ⊢
    · exact hold _ rfl rfl hphase
    · by_cases hid : id = other
      · subst hid
        obtain ⟨future, hlive⟩ := (jobs id).send_live (E := E) (start.after jobs events).store
        simp only [commit, Function.update_self, hlive] at hphase
        exact absurd hphase (by simp)
      · exact hold _ (Function.update_of_ne hid _ _) (acts_commit_of_ne hid _) hphase
    · by_cases hid : id = other
      · subst hid
        rw [acts_commit_self]
        simp only [commit, Function.update_self] at hphase
        exact (Job.iterate_responds hlive hphase).mono fun r hr => ⟨turn, by simp, hr⟩
      · exact hold _ (Function.update_of_ne hid _ _) (acts_commit_of_ne hid _) hphase
    · by_cases hid : id = other
      · subst hid
        simp only [Function.update_self] at hphase
        exact absurd hphase (by simp)
      · exact hold _ (Function.update_of_ne hid _ _) rfl hphase
    · exact hold _ rfl rfl hphase

end System

end TowerRateLimiter
