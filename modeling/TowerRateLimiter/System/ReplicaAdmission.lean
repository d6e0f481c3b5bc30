import TowerRateLimiter.System.ReplicaStory

/-!
# Admission by replicas

The increments that the server has executed are the history of one fixed-window counter, whichever
replicas they came from. While the server is healthy, each got its number in its window, and a
request is told its number or an error. So the numbers decide who reaches the inner service
(`admission_over_replicas`), and the spacing of windows bounds bursts over all replicas
(`replicas_burst`).

A request whose result is lost counts in its window all the same. What a lost result decides is the
failure mode of its replica: such a request never passes a replica that rejects, and always one that
allows.
-/

namespace TowerRateLimiter

open Rust Redis FixedWindow

variable {Head ReqBody ResBody E : Type} {backend : Backend}

/-! ## Numbers -/

/-- The charge that an executed command makes on the fixed-window counter. -/
def view (jobs : ℕ → Job (redis backend) Head ReqBody ResBody) (x : Executed) : Charge String :=
  ((jobs x.command.id).increments x.reading).charge

namespace System

variable {jobs : ℕ → Job (redis backend) Head ReqBody ResBody}
  {s : System (redis backend) Head ReqBody ResBody E}

/-- The server is healthy: its clock has not gone back, the windows are below `2 ^ 53` milliseconds
and the deadlines within its range, and it has not executed more than `2 ^ 53` increments. -/
structure Healthy (jobs : ℕ → Job (redis backend) Head ReqBody ResBody)
    (s : System (redis backend) Head ReqBody ResBody E) :
    Prop where
  clock : (s.store.executed.map fun x => x.reading).Pairwise (· ≤ ·)
  window : ∀ x ∈ s.store.executed, (jobs x.command.id).limiter.window.asMillis < 2 ^ 53
  range : ∀ x ∈ s.store.executed,
    (x.reading : ℤ) + (jobs x.command.id).limiter.window.asMillis ≤ i64Max
  few : s.store.executed.length ≤ 2 ^ 53

/-- The executed increments of a healthy server are healthy, as are those of any prefix. -/
theorem Healthy.allCalls (h : s.Healthy jobs) (hsound : s.Sound jobs) {before : List Executed}
    (hbefore : before <+: s.store.executed) :
    AllCalls backend Call.Healthy .empty
        (before.map fun x => (jobs x.command.id).increments x.reading) ∧
      ((before.map fun x => (jobs x.command.id).increments x.reading).map Call.now).Pairwise
        (· ≤ ·) := by
  have hclock : ((before.map fun x => (jobs x.command.id).increments x.reading).map
      Call.now).Pairwise (· ≤ ·) := by
    rw [List.map_map]
    exact h.clock.sublist (hbefore.sublist.map fun x => x.reading)
  have hall : ∀ {P : Call → Prop},
      (∀ x ∈ s.store.executed, P ((jobs x.command.id).increments x.reading)) →
      ∀ c ∈ before.map fun x => (jobs x.command.id).increments x.reading, P c := by
    intro P hP c hc
    obtain ⟨x, hx, rfl⟩ := List.mem_map.mp hc
    exact hP x (hbefore.subset hx)
  refine ⟨allCalls_healthy _ (hall fun _ _ => rfl) (hall fun x hx => ?_) (hall h.window)
    (hall h.range) hclock ?_, hclock⟩
  · have haccepted := (hsound.carries hx 0).window
    rw [← (checkedWindowMillis_eq_ok haccepted).1] at haccepted
    exact haccepted
  · rw [List.length_map]
    exact hbefore.length_le.trans h.few

/-- **What the server answers is the number of the command in its window.** -/
theorem Healthy.answer_eq (h : s.Healthy jobs) (hsound : s.Sound jobs) {x : Executed × Window}
    (hx : x ∈ assign (view jobs) Book.empty s.store.executed) :
    usageOf backend x.1.answer = usageOf backend (.ok (windowAnswer x.2 x.1.reading)) ∧
      1 ≤ x.2.count ∧ x.2.count ≤ 2 ^ 53 ∧ x.1.reading < x.2.closes ∧
      x.2.closes ≤ x.1.reading + 2 ^ 53 := by
  obtain ⟨before, later, hsplit, hw⟩ := exists_of_mem_assign (view jobs) Book.empty hx
  have hgrows : before ++ [x.1] <+: s.store.executed :=
    ⟨later, by rw [hsplit, List.append_assoc]; rfl⟩
  obtain ⟨hhealthy, hclock⟩ := h.allCalls hsound hgrows
  rw [List.map_append, List.map_singleton] at hhealthy hclock
  obtain ⟨hsorted, hbefore⟩ := pairwise_now_concat hclock
  obtain ⟨hpre, hcall⟩ := allCalls_concat.mp hhealthy
  have htracks := redisTracks_after _ hpre hsorted hbefore
  -- the window that the run assigns is the one that the call lands in
  have hlands : ((jobs x.1.command.id).increments x.1.reading).lands (Book.empty.after
      ((before.map fun y => (jobs y.command.id).increments y.reading).map Call.charge)) = x.2 := by
    rw [hw, List.map_map]
    rfl
  obtain ⟨hresult, -⟩ := htracks.run (positive_after backend _) hcall
  obtain ⟨hpos, hcount⟩ := htracks.land_count hcall
  obtain ⟨hlt, hnear⟩ := htracks.land_closes hcall.window
  rw [hlands] at hresult hpos hcount hlt hnear
  exact ⟨(hsound.answer_run hsplit).trans hresult, hpos, hcount, hlt, hnear⟩

/-- The charge of the request failed at a replica that allows. -/
def failedOpen (jobs : ℕ → Job (redis backend) Head ReqBody ResBody)
    (s : System (redis backend) Head ReqBody ResBody E)
    (id : ℕ) : Bool :=
  (jobs id).limiter.storeFailureMode = .allow && (s.acts id).any Act.isFailure

/-- The executed commands of a window of a key, in order, with the window as each found it. -/
def inWindow (jobs : ℕ → Job (redis backend) Head ReqBody ResBody)
    (s : System (redis backend) Head ReqBody ResBody E)
    (key : String) (serial : ℕ) : List (Executed × Window) :=
  members (view jobs) s.store.executed key serial

theorem count_of_getElem? {key : String} {serial j : ℕ} {x : Executed × Window}
    (hx : (s.inWindow jobs key serial)[j]? = some x) : x.2.count = j + 1 := by
  have hnumbers := congrArg (·[j]?) (counts_eq_range' (view jobs) s.store.executed key serial)
  obtain ⟨hlt, -⟩ := List.getElem?_eq_some_iff.mp hx
  unfold inWindow at hx hlt
  simp only [List.getElem?_map, hx, Option.map_some] at hnumbers
  rw [List.getElem?_range' hlt] at hnumbers
  have := Option.some.inj hnumbers
  omega

theorem mem_executed_of_mem_assign {x : Executed × Window}
    (hx : x ∈ assign (view jobs) Book.empty s.store.executed) : x.1 ∈ s.store.executed := by
  have hmem := List.mem_map_of_mem (f := Prod.fst) hx
  rwa [map_fst_assign] at hmem

/-- A request that is told a usage was executed before the last millisecond of its window, and is
told the usage of the window then. -/
theorem Healthy.usage_eq (h : s.Healthy jobs) (hsound : s.Sound jobs) {x : Executed × Window}
    (hx : x ∈ assign (view jobs) Book.empty s.store.executed) {u : Usage}
    (hu : Act.answer (.ok u) ∈ s.acts x.1.command.id) :
    x.1.reading + 1 < x.2.closes ∧ u = windowUsage x.2 x.1.reading := by
  obtain ⟨y, hy, hid, husage⟩ := hsound.executed_of_usage hu
  obtain rfl : y = x.1 :=
    List.inj_on_of_nodup_map hsound.nodup_executedIds hy (mem_executed_of_mem_assign hx) hid
  obtain ⟨heq, hpos, -, hlt, -⟩ := h.answer_eq hsound hx
  rw [husage] at heq
  rcases Nat.lt_or_ge (x.1.reading + 1) x.2.closes with hbefore | hlast
  · rw [usageOf_windowAnswer backend hpos hbefore] at heq
    exact ⟨hbefore, Except.ok.inj heq⟩
  · rw [usageOf_windowAnswer_last backend hpos (by omega)] at heq
    exact absurd heq (by simp)

/-- In particular it is told its number. -/
theorem Healthy.used_eq (h : s.Healthy jobs) (hsound : s.Sound jobs) {x : Executed × Window}
    (hx : x ∈ assign (view jobs) Book.empty s.store.executed) {u : Usage}
    (hu : Act.answer (.ok u) ∈ s.acts x.1.command.id) : u.used.toNat = x.2.count ∧ u.used ≠ 0 := by
  obtain ⟨-, hpos, hcount, -, -⟩ := h.answer_eq hsound hx
  have hused : u.used.toNat = x.2.count := by
    rw [(h.usage_eq hsound hx hu).2, windowUsage_used hcount]
  refine ⟨hused, fun hzero => ?_⟩
  rw [hzero, UInt64.toNat_zero] at hused
  omega

/-- An executed request that reaches the inner service failed open or has a number within its
limit. -/
theorem Healthy.of_calls (h : s.Healthy jobs) (hsound : s.Sound jobs) {x : Executed × Window}
    (hx : x ∈ assign (view jobs) Book.empty s.store.executed)
    (hcalls : 0 < s.calls x.1.command.id) :
    s.failedOpen jobs x.1.command.id = true ∨
      ∃ limit, (x.1.command.id, Act.limit limit) ∈ s.history ∧ x.2.count ≤ limit.toNat := by
  obtain ⟨limit, hlimit⟩ := hsound.resolved _ (hsound.linear.mem_sent (mem_executed_of_mem_assign hx))
  rcases ((hsound.told x.1.command.id).course.of_call hcalls).2 with
    ⟨-, hnone⟩ | ⟨hmode, hfailure⟩ | ⟨limit, _, u, hlimit, hmem, rfl, -, hle⟩
  · exact absurd hlimit (hnone limit)
  · refine .inl ?_
    rw [failedOpen, hfailure, hmode]
    rfl
  · refine .inr ⟨limit, mem_acts.mp hlimit, ?_⟩
    rw [← (h.used_eq hsound hx hmem).1]
    rw [gt_iff_lt, UInt64.lt_iff_toNat_lt] at hle
    exact Nat.not_lt.mp hle

/-! ## Admission -/

theorem Healthy.decides (h : s.Healthy jobs) (hsound : s.Sound jobs) {x : Executed × Window}
    (hx : x ∈ assign (view jobs) Book.empty s.store.executed) {u : Usage}
    (hu : Act.answer (.ok u) ∈ s.acts x.1.command.id) :
    s.failedOpen jobs x.1.command.id = false ∧
      ∃ limit, (∀ l, (x.1.command.id, Act.limit l) ∈ s.history ↔ l = limit) ∧
        s.Decided x.1.command.id x.2.count limit := by
  obtain ⟨hused, hzero⟩ := h.used_eq hsound hx hu
  obtain ⟨hfailure, limit, hlimit, hdecides⟩ := hsound.told.decides hu rfl hzero
  refine ⟨by rw [failedOpen, hfailure, Bool.and_false], limit, hlimit, hdecides x.2.count ?_⟩
  rw [gt_iff_lt, UInt64.lt_iff_toNat_lt, hused]
  omega

/-- In a window with one limit, no more requests than the limit reach the inner service, apart from
those that failed open. -/
theorem Healthy.countP_calls_le (h : s.Healthy jobs) (hsound : s.Sound jobs) (key : String)
    (serial : ℕ) (limit : UInt64)
    (hlimits : ∀ x ∈ s.inWindow jobs key serial, ∀ l,
      (x.1.command.id, Act.limit l) ∈ s.history → l = limit) :
    (s.inWindow jobs key serial).countP (fun x => 0 < s.calls x.1.command.id) ≤
      limit.toNat + (s.inWindow jobs key serial).countP fun x => s.failedOpen jobs x.1.command.id := by
  calc (s.inWindow jobs key serial).countP (fun x => 0 < s.calls x.1.command.id)
      ≤ (s.inWindow jobs key serial).countP
          (fun x => decide (x.2.count ≤ limit.toNat) || s.failedOpen jobs x.1.command.id) := by
        refine List.countP_mono_left fun x hx hcalls => ?_
        rw [decide_eq_true_iff] at hcalls
        rw [Bool.or_eq_true, decide_eq_true_iff]
        rcases h.of_calls hsound (List.mem_of_mem_filter hx) hcalls with hopen | ⟨l, hl, hle⟩
        · exact .inr hopen
        · rw [hlimits x hx l hl] at hle
          exact .inl hle
    _ ≤ (s.inWindow jobs key serial).countP (fun x => decide (x.2.count ≤ limit.toNat)) +
          (s.inWindow jobs key serial).countP fun x => s.failedOpen jobs x.1.command.id :=
        countP_or_le _ _ _
    _ ≤ _ := by
        refine Nat.add_le_add_right ?_ _
        exact (countP_members (view jobs) s.store.executed key serial limit.toNat).trans_le
          (min_le_right _ _)

/-- **Replicas admit as one limiter.** However the requests interleave, whatever is lost, delayed or
dropped on the way, on a healthy server: the request with number `i` in its window is told `i` if it
is told a usage at all, and then reaches the inner service at most once, only if `i` is within its
own limit, exactly once if it is answered, and is answered as rate limited otherwise. Any other
request that reaches the inner service is skipped or failed open. Over all replicas, a window with
one limit admits no more requests than that and those that failed open; of `n` requests that are all
told their usage and answered, it admits exactly `min n limit`. -/
theorem admission_over_replicas (jobs : ℕ → Job (redis backend) Head ReqBody ResBody)
    (events : List (Event (redis backend) ResBody E))
    (hhealthy : (start.after jobs events).Healthy jobs) :
    let s := start.after jobs events
    s.executedIds.Nodup ∧
    (∀ key serial j x u, (s.inWindow jobs key serial)[j]? = some x →
      (x.1.command.id, Act.answer (.ok u)) ∈ s.history →
      u.used.toNat = j + 1 ∧
        ∃ limit, (∀ l, (x.1.command.id, Act.limit l) ∈ s.history ↔ l = limit) ∧
          s.Decided x.1.command.id (j + 1) limit) ∧
    (∀ id, 0 < s.calls id → s.calls id = 1 ∧
      ((jobs id).limiter.skips (jobs id).request = true ∨ s.failedOpen jobs id = true ∨
        ∃ u, (id, Act.answer (.ok u)) ∈ s.history ∧ id ∈ s.executedIds)) ∧
    ∀ key serial (limit : UInt64),
      (∀ x ∈ s.inWindow jobs key serial, ∀ l, (x.1.command.id, Act.limit l) ∈ s.history → l = limit) →
      (s.inWindow jobs key serial).countP (fun x => 0 < s.calls x.1.command.id) ≤ limit.toNat +
        (s.inWindow jobs key serial).countP (fun x => s.failedOpen jobs x.1.command.id) ∧
      ((∀ x ∈ s.inWindow jobs key serial, (∃ u, (x.1.command.id, Act.answer (.ok u)) ∈ s.history) ∧
          ∃ result, s.phases x.1.command.id = .finished result) →
        (s.inWindow jobs key serial).countP (fun x => 0 < s.calls x.1.command.id) =
          min (s.inWindow jobs key serial).length limit.toNat) := by
  intro s
  have hsound : s.Sound jobs := sound_start.after events
  refine ⟨hsound.nodup_executedIds, fun key serial j x u hx hu => ?_, fun id hcalls => ?_,
    fun key serial limit hlimits => ⟨hhealthy.countP_calls_le hsound key serial limit hlimits,
      fun hall => ?_⟩⟩
  · have hmem := List.mem_of_mem_filter (List.mem_of_getElem? hx)
    rw [← count_of_getElem? hx]
    exact ⟨(hhealthy.used_eq hsound hmem (mem_acts.mpr hu)).1,
      (hhealthy.decides hsound hmem (mem_acts.mpr hu)).2⟩
  · obtain ⟨hone, hground⟩ := (hsound.told id).course.of_call hcalls
    refine ⟨hone, ?_⟩
    rcases hground with ⟨hskip, -⟩ | ⟨hmode, hfailure⟩ | ⟨limit, _, u, -, hu, rfl, -⟩
    · exact .inl hskip
    · refine .inr (.inl ?_)
      rw [failedOpen, hfailure, hmode]
      rfl
    · obtain ⟨x, hx, hid, -⟩ := hsound.executed_of_usage hu
      exact .inr (.inr ⟨u, mem_acts.mp hu, List.mem_map.mpr ⟨x, hx, hid⟩⟩)
  · -- the calls of a window are its first `limit` numbers
    rw [inWindow, ← countP_members]
    refine List.countP_congr fun x hx => ?_
    obtain ⟨⟨u, hu⟩, result, hresult⟩ := hall x hx
    obtain ⟨-, limit', hlimit', hdecided⟩ :=
      hhealthy.decides hsound (List.mem_of_mem_filter hx) (mem_acts.mpr hu)
    obtain rfl := hlimits x hx limit' ((hlimit' limit').mpr rfl)
    rw [decide_eq_true_iff, decide_eq_true_iff]
    exact hdecided.calls_pos_iff hresult

/-- Requests to two replicas. The second is sent first and executed last. -/
def twoReplicas : List (Event (redis (.exact true)) Unit Unit) :=
  [.call 1, .call 0, .poll 1 readyTurn, .poll 1 readyTurn, .poll 0 readyTurn, .poll 0 readyTurn,
    .serve 1 5, .serve 0 7, .poll 1 readyTurn, .poll 0 readyTurn, .poll 1 readyTurn,
    .poll 0 readyTurn]

theorem healthy_twoReplicas :
    (start.after twoJobs twoReplicas).Healthy twoJobs where
  clock := by decide
  window := by decide
  range := by decide
  few := by decide

/-- The request that was executed second is told so, and its limit of one decides. -/
theorem admission_over_replicas_two :
    let s := start.after twoJobs twoReplicas
    s.Healthy twoJobs ∧ ∃ x u, (s.inWindow twoJobs "rl:p:c" 0)[1]? = some x ∧ x.1.command.id = 1 ∧
      (1, Act.answer (.ok u)) ∈ s.history ∧ u.used.toNat = 2 := by
  intro s
  have htold : (1, Act.answer (.ok ⟨2, Duration.ofMillis 8⟩)) ∈ s.history :=
    List.mem_of_getElem? (i := 2) rfl
  refine ⟨healthy_twoReplicas, _, _, rfl, rfl, htold, ?_⟩
  have hadmission := admission_over_replicas twoJobs twoReplicas healthy_twoReplicas
  exact (hadmission.2.1 "rl:p:c" 0 1 _ _ rfl htold).1

/-! ## Bursts -/

/-- **The burst bound over all replicas.** With one window length and one limit, and replicas that
reject when the store fails, an interval of `span` milliseconds of the server's clock admits at most
`⌈span / (length + 1)⌉ + 1` times the limit for each key, and one of the window's length at most
twice the limit. A window of `length` milliseconds takes increments in `length + 1` of them. -/
theorem replicas_burst (jobs : ℕ → Job (redis backend) Head ReqBody ResBody) (length : Duration)
    (hwindow : ∀ id, (jobs id).limiter.window = length)
    (hmode : ∀ id, (jobs id).limiter.storeFailureMode = .reject)
    (events : List (Event (redis backend) ResBody E))
    (hhealthy : (start.after jobs events).Healthy jobs) (limit : UInt64)
    (hlimits : ∀ id l, (id, Act.limit l) ∈ (start.after jobs events).history → l = limit)
    (key : String) (a : ℕ) :
    let s := start.after jobs events
    let admitted (span : ℕ) : ℕ := s.store.executed.countP fun x =>
      (((jobs x.command.id).increments x.reading).redisKey = key ∧ a ≤ x.reading ∧
        x.reading < a + span) && decide (0 < s.calls x.command.id)
    s.executedIds.Nodup ∧
      (∀ span, admitted span ≤
        ((span + length.asMillis) / (length.asMillis + 1) + 1) * limit.toNat) ∧
      admitted length.asMillis ≤ 2 * limit.toNat := by
  intro s admitted
  have hsound : s.Sound jobs := sound_start.after events
  have hlen : ∀ x ∈ s.store.executed, (view jobs x).length = length.asMillis + 1 := by
    intro x _
    show (jobs x.command.id).limiter.window.asMillis + 1 = _
    rw [hwindow]
  have horder : InOrder (view jobs) s.store.executed := by
    have hclock := hhealthy.clock
    rw [List.pairwise_map] at hclock
    refine List.Pairwise.imp ?_ hclock
    intro x y hle _
    exact hle
  have hbound : ∀ span, admitted span ≤
      ((span + length.asMillis) / (length.asMillis + 1) + 1) * limit.toNat := by
    intro span
    have hinterval := countP_interval_le (view jobs) (Nat.succ_pos length.asMillis)
      s.store.executed hlen horder key a span (fun x => 0 < s.calls x.1.command.id) limit.toNat ?_
    · have hadmitted : admitted span = (assign (view jobs) Book.empty s.store.executed).countP
          (inInterval (view jobs) key a span fun x => 0 < s.calls x.1.command.id) := by
        show List.countP _ s.store.executed = _
        conv_lhs => rw [← map_fst_assign (view jobs) Book.empty s.store.executed]
        rw [List.countP_map]
        rfl
      rw [hadmitted]
      exact hinterval
    · -- no replica fails open, so a window admits no more than the limit
      intro serial
      have hle := hhealthy.countP_calls_le hsound key serial limit fun x _ l hl => hlimits _ l hl
      have hnone : (s.inWindow jobs key serial).countP
          (fun x => s.failedOpen jobs x.1.command.id) = 0 := by
        rw [List.countP_eq_zero]
        intro x _
        simp [failedOpen, hmode]
      rw [hnone, Nat.add_zero] at hle
      exact hle
  refine ⟨hsound.nodup_executedIds, hbound, (hbound length.asMillis).trans ?_⟩
  refine Nat.mul_le_mul_right _ ?_
  have hdiv : (length.asMillis + length.asMillis) / (length.asMillis + 1) ≤ 1 := by
    rw [Nat.div_le_iff_le_mul (Nat.succ_pos _)]
    omega
  omega

/-- A window of ten milliseconds admits at most two of the requests of `twoReplicas`. -/
theorem replicas_burst_two :
    let s := start.after twoJobs twoReplicas
    s.Healthy twoJobs ∧
      (s.store.executed.countP fun x =>
        (((twoJobs x.command.id).increments x.reading).redisKey = "rl:p:c" ∧ 5 ≤ x.reading ∧
          x.reading < 5 + 10) && decide (0 < s.calls x.command.id)) ≤ 2 * 1 := by
  intro s
  have hjobs : ∀ id, twoJobs id = replica .lua ∨ twoJobs id = replica .multiExec := by
    intro id
    unfold twoJobs
    split
    · exact .inl rfl
    · exact .inr rfl
  refine ⟨healthy_twoReplicas, (replicas_burst twoJobs (Duration.ofMillis 10) ?_ ?_
    twoReplicas healthy_twoReplicas 1 ?_ "rl:p:c" 5).2.2⟩
  · intro id
    rcases hjobs id with h | h <;> rw [h] <;> rfl
  · intro id
    rcases hjobs id with h | h <;> rw [h] <;> rfl
  · intro id l hl
    have hone : ((start.after twoJobs twoReplicas).history.all
          fun x => x.2.limit?.all (· = 1)) = true := rfl
    have hl' := List.all_eq_true.mp hone _ hl
    simpa [Act.limit?] using hl'

end System

end TowerRateLimiter
