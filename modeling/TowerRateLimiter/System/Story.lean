import TowerRateLimiter.System.Requests

/-!
# The stories of the requests of a run

What each request of a run has done so far, over any shared store. `LiveStory` says it by the state
of the request's future, one iteration at a time (`iterate_story`); every step of a run keeps the
stories of all requests (`Told.after`). `Course` sums up what can be said without the state: which
acts a request can have made at all, on which ground it reaches the inner service
(`Course.of_call`), and what a usage decides (`Course.of_usage`).
-/

namespace TowerRateLimiter

open Rust

variable {S : SharedStore} {Head ReqBody ResBody E : Type}

/-! ## What a request has done -/

/-- The acts of one request. -/
def System.acts (s : System S Head ReqBody ResBody E) (id : ℕ) : List (Act S Head ReqBody) :=
  (s.history.filter (·.1 = id)).map Prod.snd

/-- The acts of a request whose charge has a result. -/
def charged (limit : UInt64) (charge : S.Charge) : List (Act S Head ReqBody) :=
  [.limit limit, .charge charge]

/-- A charge without a positive usage. -/
def Failed (result : Except RateLimitError Usage) : Prop := ∀ u, result = .ok u → u.used = 0

/-- The error that a failed charge is reported with. -/
def chargeError : Except RateLimitError Usage → RateLimitError
  | .error e => e
  | .ok _ => Policy.zeroUsage

namespace Job

/-- The charge is one for the request's client and the window of its limiter. -/
def Charges (job : Job S Head ReqBody ResBody) (charge : S.Charge) : Prop :=
  ∃ key, job.limiter.extract job.request = .ok key ∧
    S.For (job.limiter.storedKey key) job.limiter.window charge

/-- What a request in progress can have done, by the state of its future. -/
inductive LiveStory (job : Job S Head ReqBody ResBody) :
    RunState S Head ReqBody → List (Act S Head ReqBody) → Prop where
  | skipped (h : job.limiter.skips job.request = true) :
      LiveStory job (.inner () none) [.call job.request]
  | refused (e : RateLimitError) : LiveStory job (.ready (.error job.request e)) []
  | limiting (key : String) (hkey : job.limiter.extract job.request = .ok key) :
      LiveStory job (.limit () job.request key) []
  | charging (key : String) (future : S.Future) (limit : UInt64) (seen : Option S.Charge)
      (hkey : job.limiter.extract job.request = .ok key)
      (hopen : S.Open (job.limiter.storedKey key) job.limiter.window future seen) :
      LiveStory job (.store future job.request limit) (.limit limit :: seen.toList.map .charge)
  | failing (limit : UInt64) (charge : S.Charge) (hcharge : job.Charges charge)
      (h : Failed (S.result charge)) (hmode : job.limiter.storeFailureMode = .reject) :
      LiveStory job (.ready (.error job.request (chargeError (S.result charge))))
        (charged limit charge)
  | failedOpen (limit : UInt64) (charge : S.Charge) (hcharge : job.Charges charge)
      (h : Failed (S.result charge)) (hmode : job.limiter.storeFailureMode = .allow) :
      LiveStory job (.inner () none) (charged limit charge ++ [.call job.request])
  | rejected (limit : UInt64) (charge : S.Charge) (u : Usage) (hcharge : job.Charges charge)
      (hu : S.result charge = .ok u) (h : u.used > limit) :
      LiveStory job (.ready (.rateLimited job.request (job.limiter.metadata limit u)))
        (charged limit charge)
  | admitted (limit : UInt64) (charge : S.Charge) (u : Usage) (hcharge : job.Charges charge)
      (hu : S.result charge = .ok u) (hzero : u.used ≠ 0) (h : ¬ u.used > limit) :
      LiveStory job (.inner () (some (job.limiter.metadata limit u)))
        (charged limit charge ++ [.call (job.request.withPolicy (job.limiter.policy limit u))])

/-- What a request with a response has done. -/
inductive Ended (job : Job S Head ReqBody ResBody) : List (Act S Head ReqBody) → Prop where
  | inner {metadata : Option ResponseMetadata} {acts : List (Act S Head ReqBody)}
      (h : job.LiveStory (.inner () metadata) acts) : Ended job acts
  | error {request : Request Head ReqBody} {e : RateLimitError} {acts : List (Act S Head ReqBody)}
      (h : job.LiveStory (.ready (.error request e)) acts) :
      Ended job (acts ++ [.build request (.error e)])
  | rateLimited {request : Request Head ReqBody} {metadata : ResponseMetadata}
      {acts : List (Act S Head ReqBody)}
      (h : job.LiveStory (.ready (.rateLimited request metadata)) acts) :
      Ended job (acts ++ [.build request (.rateLimited metadata.policy)])

/-- What a request can have done, by its phase. -/
def Story (job : Job S Head ReqBody ResBody) :
    Phase S Head ReqBody ResBody E → List (Act S Head ReqBody) → Prop
  | .unused, acts => acts = []
  | .live future, acts => ∃ state, future = job.future state ∧ job.LiveStory state acts
  | .finished _, acts => job.Ended acts
  | .dropped, acts => ∃ state, job.LiveStory state acts
  | .panicked, _ => False

variable {job : Job S Head ReqBody ResBody}

theorem send_story (store : S.Shared) :
    job.Story (job.send (E := E) store).phase (job.send (E := E) store).acts := by
  unfold send
  split
  next hskip => exact ⟨_, rfl, .skipped hskip⟩
  next =>
    split
    next => exact ⟨_, rfl, .refused _⟩
    next hkey => exact ⟨_, rfl, .limiting _ hkey⟩

theorem fail_story {limit : UInt64} {charge : S.Charge} (hcharge : job.Charges charge)
    (h : Failed (S.result charge)) :
    job.Story (job.fail (E := E) job.request (chargeError (S.result charge))).1
      (charged limit charge ++
        (job.fail (E := E) job.request (chargeError (S.result charge))).2) := by
  unfold fail
  split
  next hmode => exact ⟨_, rfl, by simpa using LiveStory.failing limit charge hcharge h hmode⟩
  next hmode => exact ⟨_, rfl, .failedOpen limit charge hcharge h hmode⟩

theorem settle_story {limit : UInt64} {charge : S.Charge} (hcharge : job.Charges charge) :
    job.Story (job.settle (E := E) job.request limit (S.result charge)).1
      (charged limit charge ++
        (job.settle (E := E) job.request limit (S.result charge)).2) := by
  have hfail : Failed (S.result charge) →
      job.Story (job.fail (E := E) job.request (chargeError (S.result charge))).1
        (charged limit charge ++
          (job.fail (E := E) job.request (chargeError (S.result charge))).2) :=
    fail_story hcharge
  cases hresult : S.result charge with
  | error e =>
    rw [hresult] at hfail
    exact hfail fun u hu => absurd hu (by simp)
  | ok u =>
    rw [hresult] at hfail
    simp only [settle]
    split
    next hzero => exact hfail fun v hv => Except.ok.inj hv ▸ hzero
    next hzero =>
      split
      next hover =>
        exact ⟨_, rfl, by simpa using LiveStory.rejected limit charge u hcharge hresult hover⟩
      next hover =>
        rw [appendContext_eq]
        exact ⟨_, rfl, .admitted limit charge u hcharge hresult hzero hover⟩

/-- One iteration keeps the story. -/
theorem iterate_story {id : ℕ} {store : S.Shared} {turn : Turn S ResBody E}
    {state : RunState S Head ReqBody} {acts : List (Act S Head ReqBody)}
    (h : job.LiveStory state acts) :
    job.Story (job.iterate id store turn state).phase
      (acts ++ (job.iterate id store turn state).acts) := by
  -- three stories are in the inner state and go on in the same way
  have hinner : ∀ {metadata : Option ResponseMetadata} {acts : List (Act S Head ReqBody)},
      job.LiveStory (.inner () metadata) acts →
      job.Story (job.iterate id store turn (.inner () metadata)).phase
        (acts ++ (job.iterate id store turn (.inner () metadata)).acts) := by
    intro metadata acts hlive
    simp only [iterate]
    cases turn.inner with
    | pending => exact ⟨_, rfl, by simpa using hlive⟩
    | ready result =>
      rw [List.append_nil]
      exact Ended.inner hlive
  cases h with
  | skipped hskip => exact hinner (.skipped hskip)
  | failedOpen limit charge hcharge hfail hmode =>
    exact hinner (.failedOpen limit charge hcharge hfail hmode)
  | admitted limit charge u hcharge hu hzero hle =>
    exact hinner (.admitted limit charge u hcharge hu hzero hle)
  | refused e => exact Ended.error (.refused e)
  | failing limit charge hcharge hfail hmode =>
    exact Ended.error (.failing limit charge hcharge hfail hmode)
  | rejected limit charge u hcharge hu hover =>
    exact Ended.rateLimited (.rejected limit charge u hcharge hu hover)
  | limiting key hkey =>
    simp only [iterate]
    split
    · exact ⟨_, rfl, .limiting key hkey⟩
    · exact ⟨_, rfl, .refused _⟩
    · exact ⟨_, rfl, .charging key _ _ _ hkey (S.open_increment ..)⟩
  | charging key future limit seen hkey hopen =>
    rcases S.poll_open hopen turn.store store with
      ⟨future', store', hpoll, hopen'⟩ | ⟨future', store', charge, hpoll, hseen, hfor⟩
    · simp only [iterate, hpoll, List.append_nil]
      exact ⟨_, rfl, .charging key future' limit seen hkey hopen'⟩
    · -- the charge was seen when it was made or is seen now
      have hacts : Act.limit limit :: seen.toList.map Act.charge ++
          (S.taken (S.result charge)).toList.map Act.charge =
            (charged limit charge : List (Act S Head ReqBody)) := by
        rw [List.cons_append, ← List.map_append, hseen]
        rfl
      simp only [iterate, hpoll]
      rw [← List.append_assoc, hacts]
      exact settle_story ⟨key, hkey, hfor⟩

end Job

namespace System

variable {jobs : ℕ → Job S Head ReqBody ResBody} {s : System S Head ReqBody ResBody E}

theorem mem_acts {id : ℕ} {act : Act S Head ReqBody} :
    act ∈ s.acts id ↔ (id, act) ∈ s.history := by
  simp [acts]

theorem acts_commit_self (id : ℕ) (o : Outcome S Head ReqBody ResBody E) :
    (s.commit id o).acts id = s.acts id ++ o.acts := by
  simp only [acts, commit, List.filter_append, List.map_append, List.append_cancel_left_eq]
  rw [List.filter_eq_self.mpr (by simp), List.map_map]
  exact List.map_id _

theorem acts_commit_of_ne {id id' : ℕ} (h : id' ≠ id) (o : Outcome S Head ReqBody ResBody E) :
    (s.commit id o).acts id' = s.acts id' := by
  have hnil : (o.acts.map (id, ·)).filter (fun x => x.1 = id') = [] := by
    rw [List.filter_eq_nil_iff]
    intro x hx
    obtain ⟨act, -, rfl⟩ := List.mem_map.mp hx
    simpa using h.symm
  simp only [acts, commit, List.filter_append, hnil, List.append_nil]

/-- Every request has a story. -/
def Told (jobs : ℕ → Job S Head ReqBody ResBody) (s : System S Head ReqBody ResBody E) : Prop :=
  ∀ id, (jobs id).Story (s.phases id) (s.acts id)

/-- A step of one request keeps the stories of all. -/
theorem Told.commit (h : s.Told jobs) {id : ℕ} {o : Outcome S Head ReqBody ResBody E}
    (ho : (jobs id).Story o.phase (s.acts id ++ o.acts)) : (s.commit id o).Told jobs := by
  intro id'
  by_cases hid : id' = id
  · subst hid
    rw [acts_commit_self]
    simpa only [System.commit, Function.update_self] using ho
  · rw [acts_commit_of_ne hid]
    simpa only [System.commit, Function.update_of_ne hid] using h id'

theorem told_start : (start : System S Head ReqBody ResBody E).Told jobs := fun _ => rfl

/-- The story of a request in progress. -/
theorem Told.live (h : s.Told jobs) {id : ℕ} {future : RunFuture S Head ReqBody ResBody E}
    (hphase : s.phases id = .live future) :
    ∃ state, s.phases id = .live ((jobs id).future state) ∧
      (jobs id).LiveStory state (s.acts id) := by
  have hstory := h id
  rw [hphase] at hstory
  obtain ⟨state, rfl, hlive⟩ := hstory
  exact ⟨state, hphase, hlive⟩

/-- **What a step of a run can do.** -/
theorem step_cases (h : s.Told jobs) (event : Event S ResBody E) :
    s.step jobs event = s ∨
      (∃ id, event = .call id ∧ s.phases id = .unused ∧
        s.step jobs event = s.commit id ((jobs id).send s.store)) ∨
      (∃ id turn state, event = .poll id turn ∧ s.phases id = .live ((jobs id).future state) ∧
        (jobs id).LiveStory state (s.acts id) ∧
        s.step jobs event = s.commit id ((jobs id).iterate id s.store turn state)) ∨
      (∃ id state, event = .drop id ∧ s.phases id = .live ((jobs id).future state) ∧
        (jobs id).LiveStory state (s.acts id) ∧
        s.step jobs event = { s with phases := Function.update s.phases id .dropped }) ∨
      ∃ move, event = .move move ∧ s.step jobs event = { s with store := S.move move s.store } := by
  cases event with
  | call id =>
    cases hphase : s.phases id with
    | unused => exact .inr (.inl ⟨id, rfl, hphase, step_call hphase⟩)
    | _ => exact .inl (by simp only [step, hphase])
  | poll id turn =>
    cases hphase : s.phases id with
    | live future =>
      obtain ⟨state, hstate, hlive⟩ := h.live hphase
      exact .inr (.inr (.inl ⟨id, turn, state, rfl, hstate, hlive, step_poll hstate⟩))
    | _ => exact .inl (by simp only [step, hphase])
  | drop id =>
    cases hphase : s.phases id with
    | live future =>
      obtain ⟨state, hstate, hlive⟩ := h.live hphase
      exact .inr (.inr (.inr (.inl ⟨id, state, rfl, hstate, hlive, by simp only [step, hphase]⟩)))
    | _ => exact .inl (by simp only [step, hphase])
  | move move => exact .inr (.inr (.inr (.inr ⟨move, rfl, rfl⟩)))

/-- A dropped request keeps its story. -/
theorem Told.drop (h : s.Told jobs) {id : ℕ} {state : RunState S Head ReqBody}
    (hlive : (jobs id).LiveStory state (s.acts id)) :
    ({ s with phases := Function.update s.phases id .dropped } :
      System S Head ReqBody ResBody E).Told jobs := by
  intro id'
  by_cases hid : id' = id
  · subst hid
    simp only [Function.update_self]
    exact ⟨state, hlive⟩
  · simp only [Function.update_of_ne hid]
    exact h id'

/-- A step keeps the stories. -/
theorem Told.step (h : s.Told jobs) (event : Event S ResBody E) :
    (s.step jobs event).Told jobs := by
  rcases step_cases h event with heq | ⟨id, -, hphase, heq⟩ | ⟨id, turn, state, -, -, hlive, heq⟩ |
    ⟨id, state, -, -, hlive, heq⟩ | ⟨move, -, heq⟩ <;> rw [heq]
  · exact h
  · -- a request that is not used yet has done nothing
    refine h.commit ?_
    have hacts : s.acts id = [] := by
      have hstory := h id
      rwa [hphase] at hstory
    rw [hacts]
    exact Job.send_story s.store
  · exact h.commit (Job.iterate_story hlive)
  · exact h.drop hlive
  · exact h

/-- Every run keeps the stories. -/
theorem Told.after (events : List (Event S ResBody E)) (h : s.Told jobs) :
    (s.after jobs events).Told jobs := by
  induction events generalizing s with
  | nil => exact h
  | cons event events ih => exact ih (h.step event)

end System

/-! ## The courses of a request -/

/-- A request with a response. -/
def Phase.isOver : Phase S Head ReqBody ResBody E → Bool
  | .finished _ => true
  | _ => false

namespace Act

/-- A call of the inner service. -/
def isCall : Act S Head ReqBody → Bool
  | .call _ => true
  | _ => false

/-- The limit that an act resolves. -/
def limit? : Act S Head ReqBody → Option UInt64
  | .limit l => some l
  | _ => none

/-- A successful charge. -/
def isCharge : Act S Head ReqBody → Bool
  | .charge c => (S.result c).isOk
  | _ => false

/-- A failed charge. -/
def isFailure : Act S Head ReqBody → Bool
  | .charge c =>
      match S.result c with
      | .error _ => true
      | .ok u => u.used = 0
  | _ => false

theorem isFailure_of_failed {charge : S.Charge} (h : Failed (S.result charge)) :
    (Act.charge charge : Act S Head ReqBody).isFailure = true := by
  cases hresult : S.result charge with
  | error e => simp only [isFailure, hresult]
  | ok u => simp only [isFailure, hresult, h u hresult, decide_true]

theorem isFailure_of_ok {charge : S.Charge} {u : Usage} (hu : S.result charge = .ok u)
    (hzero : u.used ≠ 0) : (Act.charge charge : Act S Head ReqBody).isFailure = false := by
  simp only [isFailure, hu]
  exact decide_eq_false hzero

end Act

namespace Job

variable {job : Job S Head ReqBody ResBody} {acts : List (Act S Head ReqBody)}

/-- A charge of a request in progress is its own. -/
theorem LiveStory.charges {state : RunState S Head ReqBody} (h : job.LiveStory state acts)
    {charge : S.Charge} (hmem : Act.charge charge ∈ acts) : job.Charges charge := by
  cases h with
  | skipped h => simp at hmem
  | refused e => simp at hmem
  | limiting key hkey => simp at hmem
  | charging key future limit seen hkey hopen =>
    obtain rfl : seen = some charge := by simpa using hmem
    exact ⟨key, hkey, S.for_of_open hopen⟩
  | failing limit charge' hcharge h hmode =>
    obtain rfl : charge = charge' := by simpa [charged] using hmem
    exact hcharge
  | failedOpen limit charge' hcharge h hmode =>
    obtain rfl : charge = charge' := by simpa [charged] using hmem
    exact hcharge
  | rejected limit charge' u hcharge hu h =>
    obtain rfl : charge = charge' := by simpa [charged] using hmem
    exact hcharge
  | admitted limit charge' u hcharge hu hzero h =>
    obtain rfl : charge = charge' := by simpa [charged] using hmem
    exact hcharge

/-- **Every charge of a request is for its own client and window.** -/
theorem Story.charges {phase : Phase S Head ReqBody ResBody E} (h : job.Story phase acts)
    {charge : S.Charge} (hmem : Act.charge charge ∈ acts) : job.Charges charge := by
  cases phase with
  | unused =>
    rw [show acts = [] from h] at hmem
    exact absurd hmem List.not_mem_nil
  | live future =>
    obtain ⟨state, -, hlive⟩ := h
    exact hlive.charges hmem
  | finished result =>
    cases (h : job.Ended acts) with
    | inner hlive => exact hlive.charges hmem
    | error hlive => exact hlive.charges (by simpa using hmem)
    | rateLimited hlive => exact hlive.charges (by simpa using hmem)
  | dropped =>
    obtain ⟨state, hlive⟩ := h
    exact hlive.charges hmem
  | panicked => exact False.elim h

end Job

/-- The same of the requests of a run. -/
theorem System.Told.charges {jobs : ℕ → Job S Head ReqBody ResBody}
    {s : System S Head ReqBody ResBody E} (h : s.Told jobs) {id : ℕ} {charge : S.Charge}
    (hmem : (id, Act.charge charge) ∈ s.history) : (jobs id).Charges charge :=
  (h id).charges (mem_acts.mpr hmem)

/-- The course a request can have taken, and whether it is over: nothing or an error response before
any charge, a call because it is skipped, or a charge and what its result decides. -/
inductive Job.Course (job : Job S Head ReqBody ResBody) :
    Bool → List (Act S Head ReqBody) → Prop where
  | idle : Course job false []
  | refused (r : Request Head ReqBody) (e : RateLimitError) : Course job true [.build r (.error e)]
  | skipped (isOver : Bool) (h : job.limiter.skips job.request = true) :
      Course job isOver [.call job.request]
  | limited (limit : UInt64) : Course job false [.limit limit]
  | charged (limit : UInt64) (charge : S.Charge) : Course job false (charged limit charge)
  | failed (limit : UInt64) (charge : S.Charge) (r : Request Head ReqBody) (e : RateLimitError)
      (h : Failed (S.result charge)) :
      Course job true (charged limit charge ++ [.build r (.error e)])
  | failedOpen (isOver : Bool) (limit : UInt64) (charge : S.Charge) (h : Failed (S.result charge))
      (hmode : job.limiter.storeFailureMode = .allow) :
      Course job isOver (charged limit charge ++ [.call job.request])
  | rejected (limit : UInt64) (charge : S.Charge) (u : Usage) (r : Request Head ReqBody)
      (p : Policy) (hu : S.result charge = .ok u) (h : u.used > limit) :
      Course job true (charged limit charge ++ [.build r (.rateLimited p)])
  | admitted (isOver : Bool) (limit : UInt64) (charge : S.Charge) (u : Usage)
      (r : Request Head ReqBody) (hu : S.result charge = .ok u) (hzero : u.used ≠ 0)
      (h : ¬ u.used > limit) :
      Course job isOver (charged limit charge ++ [.call r])

namespace Job

variable {job : Job S Head ReqBody ResBody} {acts : List (Act S Head ReqBody)} {isOver : Bool}

/-- The course of a future in progress. -/
theorem LiveStory.course {state : RunState S Head ReqBody} (h : job.LiveStory state acts) :
    job.Course false acts := by
  cases h with
  | skipped h => exact .skipped false h
  | refused e => exact .idle
  | limiting key hkey => exact .idle
  | charging key future limit seen hkey hopen =>
    cases seen with
    | none => exact .limited limit
    | some charge => exact .charged limit charge
  | failing limit charge hcharge h hmode => exact .charged limit charge
  | failedOpen limit charge hcharge h hmode => exact .failedOpen false limit charge h hmode
  | rejected limit charge u hcharge hu h => exact .charged limit charge
  | admitted limit charge u hcharge hu hzero h => exact .admitted false limit charge u _ hu hzero h

/-- The course of a request with a response. -/
theorem Ended.course (h : job.Ended acts) : job.Course true acts := by
  cases h with
  | inner h =>
    cases h with
    | skipped h => exact .skipped true h
    | failedOpen limit charge hcharge h hmode => exact .failedOpen true limit charge h hmode
    | admitted limit charge u hcharge hu hzero h => exact .admitted true limit charge u _ hu hzero h
  | error h =>
    cases h with
    | refused => exact .refused _ _
    | failing limit charge hcharge h hmode => exact .failed limit charge _ _ h
  | rateLimited h =>
    cases h with
    | rejected limit charge u hcharge hu h => exact .rejected limit charge u _ _ hu h

theorem Story.course {phase : Phase S Head ReqBody ResBody E} (h : job.Story phase acts) :
    job.Course phase.isOver acts := by
  cases phase with
  | unused =>
    obtain rfl : acts = [] := h
    exact .idle
  | live future =>
    obtain ⟨state, -, hlive⟩ := h
    exact hlive.course
  | finished result => exact Ended.course h
  | dropped =>
    obtain ⟨state, hlive⟩ := h
    exact hlive.course
  | panicked => exact False.elim h

section Charged

variable {limit : UInt64} {charge : S.Charge}

@[simp] theorem mem_charged {act : Act S Head ReqBody} :
    act ∈ charged limit charge ↔ act = .limit limit ∨ act = .charge charge := by
  simp [charged]

@[simp] theorem countP_charged :
    (charged limit charge : List (Act S Head ReqBody)).countP Act.isCall = 0 := rfl

@[simp] theorem any_charged :
    (charged limit charge : List (Act S Head ReqBody)).any Act.isFailure =
      (Act.charge charge : Act S Head ReqBody).isFailure := by
  simp [charged, Act.isFailure]

end Charged

theorem countP_isCharge_charged (limit : UInt64) (charge : S.Charge) :
    (charged limit charge : List (Act S Head ReqBody)).countP Act.isCharge ≤ 1 :=
  List.countP_le_length (l := [Act.charge charge])

/-- **Who reaches the inner service**, and on which ground: a request that is skipped, one whose
charge failed at a limiter that allows, or one that was told a usage within its limit. -/
theorem Course.of_call (h : job.Course isOver acts) (hcall : 0 < acts.countP Act.isCall) :
    acts.countP Act.isCall = 1 ∧
      ((job.limiter.skips job.request = true ∧ ∀ l, Act.limit l ∉ acts) ∨
        (job.limiter.storeFailureMode = .allow ∧ acts.any Act.isFailure = true) ∨
        ∃ limit charge u, Act.limit limit ∈ acts ∧ Act.charge charge ∈ acts ∧
          S.result charge = .ok u ∧ u.used ≠ 0 ∧ ¬ u.used > limit) := by
  cases h with
  | idle => simp at hcall
  | refused r e => simp [Act.isCall] at hcall
  | skipped _ h => exact ⟨rfl, .inl ⟨h, by simp⟩⟩
  | limited limit => simp [Act.isCall] at hcall
  | charged limit charge => simp at hcall
  | failed limit charge r e h => simp [Act.isCall] at hcall
  | failedOpen _ limit charge h hmode =>
    exact ⟨rfl, .inr (.inl ⟨hmode, by simp [Act.isFailure_of_failed h]⟩)⟩
  | rejected limit charge u r p hu h => simp [Act.isCall] at hcall
  | admitted _ limit charge u r hu hzero h =>
    exact ⟨rfl, .inr (.inr ⟨limit, charge, u, by simp, by simp, hu, hzero, h⟩)⟩

/-- **What a usage decides** for the request that is told it. -/
theorem Course.of_usage (h : job.Course isOver acts) {charge : S.Charge} {u : Usage}
    (hmem : Act.charge charge ∈ acts) (hu : S.result charge = .ok u) (hzero : u.used ≠ 0) :
    ∃ limit, (∀ l, Act.limit l ∈ acts ↔ l = limit) ∧ acts.any Act.isFailure = false ∧
      (0 < acts.countP Act.isCall → ¬ u.used > limit) ∧
      (isOver = true → (¬ u.used > limit → acts.countP Act.isCall = 1) ∧
        (u.used > limit → ∃ r p, Act.build r (.rateLimited p) ∈ acts)) := by
  have hsuccess : (Act.charge charge : Act S Head ReqBody).isFailure = false :=
    Act.isFailure_of_ok hu hzero
  cases h with
  | idle => simp at hmem
  | refused r e => simp at hmem
  | skipped _ h => simp at hmem
  | limited limit => simp at hmem
  | charged limit charge' =>
    obtain rfl : charge = charge' := by simpa using hmem
    exact ⟨limit, by simp, by simpa using hsuccess, by simp, by simp⟩
  | failed limit charge' r e h =>
    obtain rfl : charge = charge' := by simpa using hmem
    exact absurd (h u hu) hzero
  | failedOpen _ limit charge' h hmode =>
    obtain rfl : charge = charge' := by simpa using hmem
    exact absurd (h u hu) hzero
  | rejected limit charge' v r p hv h =>
    obtain rfl : charge = charge' := by simpa using hmem
    obtain rfl : u = v := Except.ok.inj (hu.symm.trans hv)
    exact ⟨limit, by simp, by simpa [Act.isFailure] using hsuccess, by simp [Act.isCall],
      fun _ => ⟨fun hle => absurd h hle, fun _ => ⟨r, p, by simp⟩⟩⟩
  | admitted _ limit charge' v r hv _ h =>
    obtain rfl : charge = charge' := by simpa using hmem
    obtain rfl : u = v := Except.ok.inj (hu.symm.trans hv)
    exact ⟨limit, by simp, by simpa [Act.isFailure] using hsuccess, fun _ => h,
      fun _ => ⟨fun _ => rfl, fun hover => absurd hover h⟩⟩

/-- A request without a usage calls the inner service only if it is skipped or its limiter fails
open, and as it is. -/
theorem Course.call_of_failed (h : job.Course isOver acts)
    (hfailed : ∀ charge, Act.charge charge ∈ acts → Failed (S.result charge))
    {request : Request Head ReqBody} (hcall : Act.call request ∈ acts) :
    request = job.request ∧
      (job.limiter.skips job.request = true ∨ job.limiter.storeFailureMode = .allow) := by
  cases h with
  | idle => simp at hcall
  | refused r e => simp at hcall
  | skipped _ h => exact ⟨Act.call.inj (List.mem_singleton.mp hcall), .inl h⟩
  | limited limit => simp at hcall
  | charged limit charge => simp at hcall
  | failed limit charge r e h => simp at hcall
  | failedOpen _ limit charge h hmode => exact ⟨by simpa using hcall, .inr hmode⟩
  | rejected limit charge u r p hu h => simp at hcall
  | admitted _ limit charge u r hu hzero h => exact absurd (hfailed charge (by simp) u hu) hzero

/-- A request is charged at most once. -/
theorem Course.countP_isCharge_le (h : job.Course isOver acts) : acts.countP Act.isCharge ≤ 1 := by
  -- the response or the call after a charge is none
  have hlast : ∀ {limit charge} {act : Act S Head ReqBody}, act.isCharge = false →
      (TowerRateLimiter.charged limit charge ++ [act]).countP Act.isCharge ≤ 1 := by
    intro limit charge act hact
    rw [List.countP_append, List.countP_cons_of_neg (by simp [hact])]
    exact countP_isCharge_charged limit charge
  cases h with
  | idle => exact Nat.zero_le 1
  | refused r e => exact Nat.zero_le 1
  | skipped _ h => exact Nat.zero_le 1
  | limited limit => exact Nat.zero_le 1
  | charged limit charge => exact countP_isCharge_charged limit charge
  | failed limit charge r e h => exact hlast rfl
  | failedOpen _ limit charge h hmode => exact hlast rfl
  | rejected limit charge u r p hu h => exact hlast rfl
  | admitted _ limit charge u r hu hzero h => exact hlast rfl

end Job

/-! ## What a number decides -/

namespace System

variable {jobs : ℕ → Job S Head ReqBody ResBody} {s : System S Head ReqBody ResBody E}

/-- The calls of the inner service made for a request. -/
def calls (s : System S Head ReqBody ResBody E) (id : ℕ) : ℕ := (s.acts id).countP Act.isCall

/-- What its number in the window decides for a charged request: it reaches the inner service at
most once, only if the number is within its limit, and exactly once if it is answered then; an
answered request beyond its limit is answered by the factory as rate limited. -/
def Decided (s : System S Head ReqBody ResBody E) (id number : ℕ) (limit : UInt64) : Prop :=
  s.calls id ≤ (if number ≤ limit.toNat then 1 else 0) ∧
    ∀ result, s.phases id = .finished result →
      if number ≤ limit.toNat then s.calls id = 1
      else ∃ r p, (id, Act.build r (.rateLimited p)) ∈ s.history

/-- A usage decides as any number that is beyond the limit when the usage is. -/
theorem Told.decides (h : s.Told jobs) {id : ℕ} {charge : S.Charge} {u : Usage}
    (hmem : Act.charge charge ∈ s.acts id) (hu : S.result charge = .ok u) (hzero : u.used ≠ 0) :
    (s.acts id).any Act.isFailure = false ∧
      ∃ limit, (∀ l, (id, Act.limit l) ∈ s.history ↔ l = limit) ∧
        ∀ number : ℕ, (u.used > limit ↔ ¬ number ≤ limit.toNat) → s.Decided id number limit := by
  obtain ⟨limit, hlimit, hfailure, hcalls, hend⟩ := (h id).course.of_usage hmem hu hzero
  have hone : s.calls id ≤ 1 := by
    by_contra hmany
    exact hmany ((h id).course.of_call (Nat.zero_lt_of_lt (not_le.mp hmany))).1.le
  refine ⟨hfailure, limit, fun l => mem_acts.symm.trans (hlimit l), fun number hcompare => ⟨?_, ?_⟩⟩
  · by_cases hle : number ≤ limit.toNat
    · rwa [if_pos hle]
    · rw [if_neg hle]
      by_contra hpos
      exact hcalls (Nat.pos_of_ne_zero fun hnone => hpos hnone.le) (hcompare.mpr hle)
  · intro result hresult
    obtain ⟨hcalled, hbuilt⟩ := hend (by rw [hresult]; rfl)
    split
    next hle => exact hcalled fun hover => hcompare.mp hover hle
    next hover =>
      obtain ⟨r, p, hrp⟩ := hbuilt (hcompare.mpr hover)
      exact ⟨r, p, mem_acts.mp hrp⟩

/-- An answered request reaches the inner service if and only if its number is within its limit. -/
theorem Decided.calls_pos_iff {id number : ℕ} {limit : UInt64} (h : s.Decided id number limit)
    {result : Except E (Response ResBody)} (hresult : s.phases id = .finished result) :
    0 < s.calls id ↔ number ≤ limit.toNat := by
  obtain ⟨hle, hend⟩ := h
  have hend := hend result hresult
  by_cases hn : number ≤ limit.toNat
  · rw [if_pos hn] at hend
    omega
  · rw [if_neg hn] at hle
    omega

end System

end TowerRateLimiter
