import TowerRateLimiter.Common.Remote
import TowerRateLimiter.Common.Task
import TowerRateLimiter.Store.RedisReference

/-!
# Increments in flight

`RedisStore::increment` returns a future. A window that the store refuses makes it ready at once.
Otherwise nothing is sent before the first poll, and what is sent then is out of the future's hands:
the server may execute it late, or after the future has been dropped or has reported a failed
connection.

`RedisFuture` is that future, and a `Cluster` what it shares with the server and all other clients.

Main results:

* `RedisFuture.poll_increment`: a future that is polled while nothing else happens does what
  `RedisStore.increment` says in one step;
* `ranInOrder`: the executed commands of a cluster are a run of increments;
* `allCalls_healthy`: what keeps the increments of a run healthy.
-/

namespace TowerRateLimiter

open Rust Redis FixedWindow

/-! ## Messages -/

/-- The command of one increment, on its way to the server, and the request it is sent for. -/
structure Message where
  id : ℕ
  implementation : Implementation
  redisKey : String
  windowMillis : ℕ

/-- The server runs the command of a message. -/
def Message.run (backend : Backend) (ks : Keyspace String) (m : Message) (now : ℕ) :
    Except ClientError (ℤ × ℤ) × Keyspace String :=
  runCounter backend m.implementation now m.redisKey m.windowMillis ks

/-- The server with all commands sent to it by any client. The server reads its own clock. -/
abbrev Cluster := Remote.Server (Keyspace String) Message ℕ (Except ClientError (ℤ × ℤ))

/-- A command that the server has executed. -/
abbrev Executed := Remote.Execution Message ℕ (Except ClientError (ℤ × ℤ))

/-- The server executes a command that was sent to it. -/
def Cluster.serve (backend : Backend) (c : Cluster) (ticket now : ℕ) : Cluster :=
  c.execute (Message.run backend) ticket now

/-! ## The future -/

/-- What the connection does for a future that is polled: not yet anything, what there is to do, or
it fails. -/
inductive Link where
  | busy
  | up
  | failed (e : ClientError)

/-- The connection does something. -/
def Link.isReady : Link → Bool
  | .busy => false
  | .up | .failed _ => true

/-- The future of an increment: an error that is ready, the `async` block before its command is sent
and while it waits for the answer, and after its output. -/
inductive RedisFuture where
  | refused (e : RateLimitError)
  | unsent (message : Message)
  | waiting (ticket : ℕ)
  | finished

/-- `Store::increment` for `RedisStore`: what it does before the first poll. -/
def RedisStore.begin (store : RedisStore) (implementation : Implementation) (id : ℕ) (key : String)
    (window : Duration) : RedisFuture :=
  match checkedWindowMillis window with
  | .error e => .refused e.toRateLimitError
  | .ok windowMillis => .unsent ⟨id, implementation, store.redisKey key, windowMillis⟩

namespace RedisFuture

/-- One poll. A command that has been sent is not sent again. -/
def poll (backend : Backend) (link : Link) :
    Eff (RedisFuture × Cluster) (Poll (Except RateLimitError Usage)) := fun s =>
  match s.1 with
  | .refused e => .ok (.ready (.error e)) (.finished, s.2)
  | .unsent message =>
      match link with
      | .busy => .ok .pending s
      | .up => .ok .pending (.waiting s.2.sent.length, s.2.send message)
      | .failed e => .ok (.ready (usageOf backend (.error e))) (.finished, s.2)
  | .waiting ticket =>
      match link with
      | .busy => .ok .pending s
      | .up =>
          match s.2.answer? ticket with
          | none => .ok .pending s
          | some answer => .ok (.ready (usageOf backend answer)) (.finished, s.2)
      | .failed e => .ok (.ready (usageOf backend (.error e))) (.finished, s.2)
  | .finished => .error .polledAfterCompletion s

/-- What a poll can do: nothing, send the command, or return an output, which is the error of a
refused window, the error that the connection fails with or the answer to the command. -/
theorem poll_cases (backend : Backend) (link : Link) (f : RedisFuture) (c : Cluster)
    (hf : f ≠ .finished) :
    poll backend link (f, c) = .ok .pending (f, c) ∨
      (∃ message, f = .unsent message ∧
        poll backend link (f, c) = .ok .pending (.waiting c.sent.length, c.send message)) ∨
      ∃ result, poll backend link (f, c) = .ok (.ready result) (.finished, c) ∧
        ((∃ e, f = .refused e ∧ result = .error e) ∨
          (∃ e, link = .failed e ∧ result = usageOf backend (.error e)) ∨
          ∃ ticket answer, f = .waiting ticket ∧ c.answer? ticket = some answer ∧
            result = usageOf backend answer) := by
  cases f with
  | refused e => exact .inr (.inr ⟨_, rfl, .inl ⟨e, rfl, rfl⟩⟩)
  | unsent message =>
    cases link with
    | busy => exact .inl rfl
    | up => exact .inr (.inl ⟨message, rfl, rfl⟩)
    | failed e => exact .inr (.inr ⟨_, rfl, .inr (.inl ⟨e, rfl, rfl⟩)⟩)
  | waiting ticket =>
    cases link with
    | busy => exact .inl rfl
    | up =>
      cases hanswer : c.answer? ticket with
      | none => exact .inl (by simp only [poll, hanswer])
      | some answer =>
        exact .inr (.inr ⟨_, by simp only [poll, hanswer], .inr (.inr ⟨ticket, answer, rfl, hanswer, rfl⟩)⟩)
    | failed e => exact .inr (.inr ⟨_, rfl, .inr (.inl ⟨e, rfl, rfl⟩)⟩)
  | finished => exact absurd rfl hf

end RedisFuture

/-! ## Executed commands are a run of increments -/

/-- The message carries the increment that the call makes. -/
structure Message.Carries (m : Message) (c : Call) : Prop where
  implementation : m.implementation = c.implementation
  redisKey : m.redisKey = c.redisKey
  window : checkedWindowMillis c.window = .ok m.windowMillis
  answered : c.delivery = .answered

variable {backend : Backend}

/-- Running a message is running its call. -/
theorem Message.Carries.run_eq (backend : Backend) {m : Message} {c : Call} (h : m.Carries c)
    (ks : Keyspace String) :
    c.run backend ks =
      (usageOf backend (m.run backend ks c.now).1, (m.run backend ks c.now).2) := by
  rw [Call.run_answered h.window h.answered, Message.run, h.implementation, h.redisKey]

/-- A run is its calls and their results. -/
theorem replay_carried (backend : Backend) (call : ℕ → ℕ → Call)
    (hnow : ∀ id now, (call id now).now = now) {commands : List (Message × ℕ)}
    (hcarries : ∀ x ∈ commands, x.1.Carries (call x.1.id x.2)) (ks : Keyspace String) :
    (Remote.replay (Message.run backend) ks commands).2 =
        keyspaceAfter backend ks (commands.map fun x => call x.1.id x.2) ∧
      (Remote.replay (Message.run backend) ks commands).1.map (usageOf backend) =
        callResults backend ks (commands.map fun x => call x.1.id x.2) := by
  induction commands generalizing ks with
  | nil => exact ⟨rfl, rfl⟩
  | cons x commands ih =>
    obtain ⟨m, now⟩ := x
    have hrun := (hcarries (m, now) List.mem_cons_self).run_eq backend ks
    rw [hnow] at hrun
    obtain ⟨hstate, hresults⟩ :=
      ih (fun x hx => hcarries x (List.mem_cons_of_mem _ hx)) (m.run backend ks now).2
    simp only [Remote.replay, List.map_cons, keyspaceAfter_cons, callResults, hrun]
    exact ⟨hstate, congrArg _ hresults⟩

theorem getElem?_callResults (backend : Backend) (ks : Keyspace String) (pre post : List Call)
    (c : Call) :
    (callResults backend ks (pre ++ c :: post))[pre.length]? =
      some (c.run backend (keyspaceAfter backend ks pre)).1 := by
  induction pre generalizing ks with
  | nil => rfl
  | cons d pre ih => exact ih (d.run backend ks).2

/-- **The executed commands of a linear cluster are a run of increments**: the keyspace is the one
that the run leaves, and what each command answers is what the call in its place returns. -/
theorem ranInOrder {cluster : Cluster} (h : Remote.Linear (Message.run backend) .empty cluster)
    (call : ℕ → ℕ → Call) (hnow : ∀ id now, (call id now).now = now)
    (hcarries : ∀ m ∈ cluster.sent, ∀ now, m.Carries (call m.id now)) :
    cluster.state =
        keyspaceAfter backend .empty (cluster.executed.map fun x => call x.command.id x.reading) ∧
      cluster.executed.map (fun x => usageOf backend x.answer) =
        callResults backend .empty (cluster.executed.map fun x => call x.command.id x.reading) := by
  have hcommands : ∀ x ∈ cluster.commands, x.1.Carries (call x.1.id x.2) := by
    intro x hx
    obtain ⟨y, hy, rfl⟩ := List.mem_map.mp hx
    exact hcarries _ (h.mem_sent hy) _
  obtain ⟨hstate, hresults⟩ := replay_carried backend call hnow hcommands .empty
  have hmap : (cluster.commands.map fun x => call x.1.id x.2) =
      cluster.executed.map fun x => call x.command.id x.reading := List.map_map
  rw [hmap] at hstate hresults
  refine ⟨h.state.trans hstate, ?_⟩
  rw [← hresults, ← h.answers, List.map_map]
  rfl

/-! ## One increment by itself -/

/-- **A future polled alone does what `RedisStore.increment` says.** Its two polls and the server's
execution in between return the usage and leave the keyspace of one answered increment; a failed
connection before or after the execution gives the increments whose request or reply is lost. -/
theorem RedisFuture.poll_increment (backend : Backend) (store : RedisStore)
    (implementation : Implementation) (id now : ℕ) (key : String) (window : Duration)
    (ks : Keyspace String) {windowMillis : ℕ} (hwindow : checkedWindowMillis window = .ok windowMillis) :
    let message : Message := ⟨id, implementation, store.redisKey key, windowMillis⟩
    let sent := (Remote.Server.start ks : Cluster).send message
    let served := Cluster.serve backend sent 0 now
    store.begin implementation id key window = .unsent message ∧
      poll backend .up (.unsent message, .start ks) = .ok .pending (.waiting 0, sent) ∧
      (∃ result, poll backend .up (.waiting 0, served) = .ok (.ready result) (.finished, served) ∧
        (result, served.state) =
          store.increment backend implementation .answered now key window ks) ∧
      (∃ result, poll backend (.failed .connection) (.waiting 0, served) =
          .ok (.ready result) (.finished, served) ∧
        (result, served.state) =
          store.increment backend implementation .replyLost now key window ks) ∧
      ∃ result, poll backend (.failed .connection) (.unsent message, .start ks) =
          .ok (.ready result) (.finished, .start ks) ∧
        (result, ks) = store.increment backend implementation .requestLost now key window ks := by
  intro message sent served
  refine ⟨by simp only [RedisStore.begin, hwindow, message], rfl, ⟨_, rfl, ?_⟩, ⟨_, rfl, ?_⟩,
    ⟨_, rfl, ?_⟩⟩ <;>
  · simp only [RedisStore.increment, hwindow, incrementCounter]
    rfl

/-! ## Health -/

/-- The windows that calls land in count no more than all calls. -/
theorem count_le_length (calls : List Call) {k : String} {w : Window}
    (h : Book.empty.after (calls.map Call.charge) k = some w) : w.count ≤ calls.length := by
  rw [← length_members_last Call.charge calls h]
  calc (members Call.charge calls k w.serial).length
      ≤ (assign Call.charge Book.empty calls).length := List.length_filter_le _ _
    _ = calls.length := by
      rw [← List.length_map (f := Prod.fst), map_fst_assign]

/-- **What keeps a run healthy**: answered calls with accepted windows below `2 ^ 53` milliseconds
and deadlines within range, a clock that does not go back, and not more than `2 ^ 53` calls. -/
theorem allCalls_healthy (calls : List Call)
    (hanswered : ∀ c ∈ calls, c.delivery = .answered)
    (haccepted : ∀ c ∈ calls, checkedWindowMillis c.window = .ok c.window.asMillis)
    (hwindow : ∀ c ∈ calls, c.window.asMillis < 2 ^ 53)
    (hrange : ∀ c ∈ calls, (c.now : ℤ) + c.window.asMillis ≤ i64Max)
    (hclock : (calls.map Call.now).Pairwise (· ≤ ·)) (hfew : calls.length ≤ 2 ^ 53) :
    AllCalls backend Call.Healthy .empty calls := by
  induction calls using List.reverseRecOn with
  | nil => trivial
  | append_singleton calls c ih =>
    obtain ⟨hsorted, hbefore⟩ := pairwise_now_concat hclock
    rw [List.length_append, List.length_singleton] at hfew
    have hhealthy := ih (fun d hd => hanswered d (List.mem_append_left _ hd))
      (fun d hd => haccepted d (List.mem_append_left _ hd))
      (fun d hd => hwindow d (List.mem_append_left _ hd))
      (fun d hd => hrange d (List.mem_append_left _ hd)) hsorted (by omega)
    have hlast : c ∈ calls ++ [c] := List.mem_append_right _ (List.mem_singleton_self c)
    refine allCalls_concat.mpr ⟨hhealthy, hanswered c hlast, haccepted c hlast, hwindow c hlast,
      hrange c hlast, fun counter hcounter => ?_⟩
    -- the counter is that of a window, which counts at most the calls so far
    have htracks := redisTracks_after calls hhealthy hsorted hbefore
    have hstored := (Keyspace.lookup_eq_some.mp hcounter).1
    rw [htracks.counters] at hstored
    obtain ⟨w, hw, rfl⟩ := Option.map_eq_some_iff.mp hstored
    have hcount := count_le_length calls hw
    rw [counterOf_value]
    omega

end TowerRateLimiter
