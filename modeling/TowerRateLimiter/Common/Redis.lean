import TowerRateLimiter.Common.Time
import Mathlib.Logic.Function.Basic

/-!
# A Redis server, as far as counters need it

The commands `INCR`, `PEXPIRE`, `SET … PX … NX` and `PTTL` on a keyspace of integer counters with
millisecond deadlines, and the two ways of running several of them as one: a Lua script, which stops
at the first failing `redis.call`, and `MULTI`/`EXEC`, which runs every command. Both run at one
clock reading and neither undoes what it has executed.

A key with deadline `d` is live at every reading `now ≤ d` and gone afterwards. Keys past their
deadline are not removed from the keyspace; `lookup` no longer finds them.
-/

namespace Redis

open Rust

/-- A stored counter and the last millisecond at which it is live. -/
@[ext]
structure Counter where
  value : ℤ
  deadline : Option ℕ
deriving DecidableEq

/-- The counter is live at the clock reading `now`. -/
def Counter.Live (now : ℕ) (c : Counter) : Prop := ∀ d ∈ c.deadline, now ≤ d

instance (now : ℕ) (c : Counter) : Decidable (c.Live now) :=
  inferInstanceAs (Decidable (∀ d ∈ c.deadline, now ≤ d))

/-- The milliseconds a live counter has left, `-1` without a deadline. -/
def Counter.ttl (now : ℕ) (c : Counter) : ℤ :=
  match c.deadline with
  | some d => d - now
  | none => -1

/-- The keys of one database. -/
abbrev Keyspace (κ : Type) := κ → Option Counter

variable {κ : Type}

/-- No keys. -/
def Keyspace.empty : Keyspace κ := fun _ => none

/-- The live counter under a key. -/
def Keyspace.lookup (ks : Keyspace κ) (now : ℕ) (key : κ) : Option Counter :=
  (ks key).filter (·.Live now)

/-- The commands, with expiry times in milliseconds. -/
inductive Command (κ : Type) where
  | incr (key : κ)
  | pexpire (key : κ) (millis : ℕ)
  | setPxNx (key : κ) (value : ℤ) (millis : ℕ)
  | pttl (key : κ)

/-- Why the server refuses a command. -/
inductive CommandError where
  | incrementOverflow
  | invalidExpireTime
deriving DecidableEq

/-- What the server replies to a command. -/
inductive Reply where
  | okay
  | nil
  | integer (n : ℤ)
deriving DecidableEq

/-- An error of the client library: a refused command, a reply of another shape than asked for, or
a failed connection. -/
inductive ClientError where
  | command (e : CommandError)
  | unexpectedReply
  | connection
deriving DecidableEq

/-- What may differ between servers and clients. `expiryFirst` says whether `SET` checks its expiry
time before it looks at `NX`; `luaNumber` is what remains of an integer that a script reads from a
reply and returns; `errorText` renders a client error. -/
structure Backend where
  expiryFirst : Bool
  luaNumber : ℤ → ℤ
  errorText : ClientError → String
  /-- Integers up to `2 ^ 53` are exact as Lua numbers. -/
  luaNumber_exact : ∀ n, |n| ≤ 2 ^ 53 → luaNumber n = n
  /-- No other integer is rounded to one. -/
  luaNumber_eq_one : ∀ n, luaNumber n = 1 → n = 1

/-- A backend with exact Lua numbers. -/
def Backend.exact (expiryFirst : Bool) : Backend where
  expiryFirst := expiryFirst
  luaNumber n := n
  errorText
    | .command .incrementOverflow => "ERR increment or decrement would overflow"
    | .command .invalidExpireTime => "ERR invalid expire time"
    | .unexpectedReply => "unexpected reply"
    | .connection => "connection failed"
  luaNumber_exact _ _ := rfl
  luaNumber_eq_one _ h := h

/-- An integer as a double: the nearest one, and of two equally near the even one. `unit` is the
distance of the doubles around the integer. -/
def toDouble (n : ℤ) : ℤ :=
  let unit := 2 ^ (n.natAbs.log2 - 52)
  let quotient := n.natAbs / unit
  let rest := n.natAbs % unit
  n.sign * ((if 2 * rest < unit ∨ 2 * rest = unit ∧ quotient % 2 = 0 then quotient
    else quotient + 1) * unit : ℕ)

theorem toDouble_of_lt {n : ℤ} (h : n.natAbs < 2 ^ 53) : toDouble n = n := by
  have hlog : n.natAbs.log2 - 52 = 0 := by
    by_cases hzero : n.natAbs = 0
    · rw [hzero]
      rfl
    · have := (Nat.log2_lt hzero).mpr h
      omega
  simp only [toDouble, hlog, pow_zero, Nat.div_one, Nat.mod_one, Nat.mul_zero, Nat.mul_one]
  rw [if_pos (Or.inl (by decide)), Int.sign_mul_natAbs]

/-- Beyond `2 ^ 53` all doubles are even. -/
theorem even_toDouble {n : ℤ} (h : 2 ^ 53 ≤ n.natAbs) : ∃ m, toDouble n = 2 * m := by
  have hlog : 53 ≤ n.natAbs.log2 := by
    have hzero : n.natAbs ≠ 0 := by omega
    exact (Nat.le_log2 hzero).mpr h
  obtain ⟨k, hk⟩ : ∃ k, n.natAbs.log2 - 52 = k + 1 := ⟨n.natAbs.log2 - 53, by omega⟩
  refine ⟨n.sign * ((if 2 * (n.natAbs % 2 ^ (k + 1)) < 2 ^ (k + 1) ∨
    2 * (n.natAbs % 2 ^ (k + 1)) = 2 ^ (k + 1) ∧ n.natAbs / 2 ^ (k + 1) % 2 = 0 then
      n.natAbs / 2 ^ (k + 1) else n.natAbs / 2 ^ (k + 1) + 1) * 2 ^ k : ℕ), ?_⟩
  simp only [toDouble, hk]
  push_cast
  ring

/-- The integer that a script replies with for a number: a C conversion to a signed 64-bit integer,
which makes the least one of `2 ^ 63`. -/
def longLong (d : ℤ) : ℤ := if i64Max < d then -2 ^ 63 else d

/-- A backend whose Lua numbers are doubles, as they are on a real server. -/
def Backend.double (expiryFirst : Bool) : Backend where
  expiryFirst := expiryFirst
  luaNumber n := longLong (toDouble n)
  errorText := (Backend.exact expiryFirst).errorText
  luaNumber_exact n h := by
    rcases abs_le.mp h with ⟨hlow, hhigh⟩
    by_cases hlt : n.natAbs < 2 ^ 53
    · rw [toDouble_of_lt hlt, longLong, if_neg (by simp only [i64Max]; omega)]
    · obtain rfl | rfl : n = 2 ^ 53 ∨ n = -2 ^ 53 := by omega
      · decide
      · decide
  luaNumber_eq_one n h := by
    unfold longLong at h
    split at h
    · exact absurd h (by decide)
    · by_cases hlt : n.natAbs < 2 ^ 53
      · rwa [toDouble_of_lt hlt] at h
      · obtain ⟨m, hm⟩ := even_toDouble (Nat.not_lt.mp hlt)
        omega

/-- The server refuses to let a key expire `millis` after `now`: the deadline exceeds its range. -/
def ExpiryRefused (now millis : ℕ) : Prop := i64Max < (now : ℤ) + millis

instance (now millis : ℕ) : Decidable (ExpiryRefused now millis) :=
  inferInstanceAs (Decidable (_ < _))

variable [DecidableEq κ]

namespace Backend

variable (backend : Backend) (now : ℕ)

/-- Run one command. A refused command changes nothing. -/
def execute (ks : Keyspace κ) : Command κ → Except CommandError Reply × Keyspace κ
  | .incr key =>
      match ks.lookup now key with
      -- a key that `INCR` creates has no deadline
      | none => (.ok (.integer 1), Function.update ks key (some ⟨1, none⟩))
      | some c =>
          if c.value = i64Max then (.error .incrementOverflow, ks)
          else (.ok (.integer (c.value + 1)),
            Function.update ks key (some { c with value := c.value + 1 }))
  | .pexpire key millis =>
      if ExpiryRefused now millis then (.error .invalidExpireTime, ks)
      else
        match ks.lookup now key with
        | none => (.ok (.integer 0), ks)
        | some c =>
            -- a deadline that is not in the future deletes the key
            if millis = 0 then (.ok (.integer 1), Function.update ks key none)
            else (.ok (.integer 1),
              Function.update ks key (some { c with deadline := some (now + millis) }))
  | .setPxNx key value millis =>
      -- the order of the tests shows on a live key with a refused expiry time only
      let refused := millis = 0 ∨ ExpiryRefused now millis
      if backend.expiryFirst ∧ refused then (.error .invalidExpireTime, ks)
      else if (ks.lookup now key).isSome then (.ok .nil, ks)
      else if refused then (.error .invalidExpireTime, ks)
      else (.ok .okay, Function.update ks key (some ⟨value, some (now + millis)⟩))
  | .pttl key =>
      match ks.lookup now key with
      | none => (.ok (.integer (-2)), ks)
      | some c => (.ok (.integer (c.ttl now)), ks)

/-- `MULTI`/`EXEC`: every command runs, also after one that failed. -/
def exec (ks : Keyspace κ) : List (Command κ) → List (Except CommandError Reply) × Keyspace κ
  | [] => ([], ks)
  | command :: commands =>
      let (reply, ks') := backend.execute now ks command
      let (replies, ks'') := exec ks' commands
      (reply :: replies, ks'')

/-- A reply as a script sees it. -/
def luaReply : Reply → Reply
  | .integer n => .integer (backend.luaNumber n)
  | reply => reply

end Backend

/-- A script: it stops at an error and keeps what it has executed. -/
abbrev Script (κ : Type) := ExceptT CommandError (StateM (Keyspace κ))

/-- `redis.call`. -/
def Backend.call (backend : Backend) (now : ℕ) (command : Command κ) : Script κ Reply :=
  ExceptT.mk fun ks =>
    let (reply, ks') := backend.execute now ks command
    (reply.map backend.luaReply, ks')

/-! ## Looking up a key -/

@[simp] theorem Counter.live_none (now : ℕ) (n : ℤ) : Counter.Live now ⟨n, none⟩ := by
  simp [Counter.Live]

@[simp] theorem Counter.live_some (now : ℕ) (n : ℤ) (d : ℕ) :
    Counter.Live now ⟨n, some d⟩ ↔ now ≤ d := by
  simp [Counter.Live]

section Lookup

variable {ks : Keyspace κ} {now : ℕ} {key : κ} {c : Counter}

omit [DecidableEq κ] in
theorem Keyspace.lookup_eq_some : ks.lookup now key = some c ↔ ks key = some c ∧ c.Live now := by
  simp [Keyspace.lookup, Option.filter_eq_some_iff]

/-- A key just written is found while its counter is live. -/
theorem Keyspace.lookup_update_self (h : c.Live now) :
    Keyspace.lookup (Function.update ks key (some c)) now key = some c := by
  rw [Keyspace.lookup_eq_some, Function.update_self]
  exact ⟨rfl, h⟩

end Lookup

/-! ## The commands, case by case -/

section Execute

variable {backend : Backend} {ks : Keyspace κ} {now millis : ℕ} {key : κ} {value : ℤ} {c : Counter}

theorem execute_incr_free (h : ks.lookup now key = none) :
    backend.execute now ks (.incr key) =
      (.ok (.integer 1), Function.update ks key (some ⟨1, none⟩)) := by
  simp only [Backend.execute, h]

theorem execute_incr_live (h : ks.lookup now key = some c) (hvalue : c.value ≠ i64Max) :
    backend.execute now ks (.incr key) =
      (.ok (.integer (c.value + 1)),
        Function.update ks key (some { c with value := c.value + 1 })) := by
  simp only [Backend.execute, h, if_neg hvalue]

theorem execute_incr_overflow (h : ks.lookup now key = some c) (hvalue : c.value = i64Max) :
    backend.execute now ks (.incr key) = (.error .incrementOverflow, ks) := by
  simp only [Backend.execute, h, if_pos hvalue]

theorem execute_pexpire_refused (h : ExpiryRefused now millis) :
    backend.execute now ks (.pexpire key millis) = (.error .invalidExpireTime, ks) := by
  simp only [Backend.execute, if_pos h]

theorem execute_pexpire_live (h : ks.lookup now key = some c) (hpos : 0 < millis)
    (haccepted : ¬ ExpiryRefused now millis) :
    backend.execute now ks (.pexpire key millis) =
      (.ok (.integer 1),
        Function.update ks key (some { c with deadline := some (now + millis) })) := by
  simp only [Backend.execute, if_neg haccepted, h, if_neg hpos.ne']

theorem execute_pttl_live (h : ks.lookup now key = some c) :
    backend.execute now ks (.pttl key) = (.ok (.integer (c.ttl now)), ks) := by
  simp only [Backend.execute, h]

/-- `PTTL` only reads. -/
theorem execute_pttl_keyspace : (backend.execute now ks (.pttl key)).2 = ks := by
  simp only [Backend.execute]
  split <;> rfl

theorem execute_setPxNx_free (h : ks.lookup now key = none) (hpos : 0 < millis)
    (haccepted : ¬ ExpiryRefused now millis) :
    backend.execute now ks (.setPxNx key value millis) =
      (.ok .okay, Function.update ks key (some ⟨value, some (now + millis)⟩)) := by
  simp [Backend.execute, h, haccepted, hpos.ne']

/-- `NX` keeps a live key as it is, whatever the reply. -/
theorem execute_setPxNx_taken (backend : Backend) (value : ℤ) (millis : ℕ)
    (h : ks.lookup now key = some c) :
    (backend.execute now ks (.setPxNx key value millis)).2 = ks := by
  simp only [Backend.execute, h, Option.isSome_some, if_true]
  split <;> rfl

/-- On a free key either order of the tests refuses the expiry time. -/
theorem execute_setPxNx_refused (h : ks.lookup now key = none) (hrefused : ExpiryRefused now millis) :
    backend.execute now ks (.setPxNx key value millis) = (.error .invalidExpireTime, ks) := by
  simp [Backend.execute, h, hrefused]

theorem execute_setPxNx_live (h : ks.lookup now key = some c) (hpos : 0 < millis)
    (haccepted : backend.expiryFirst → ¬ ExpiryRefused now millis) :
    backend.execute now ks (.setPxNx key value millis) = (.ok .nil, ks) := by
  have horder : ¬ (backend.expiryFirst ∧ (millis = 0 ∨ ExpiryRefused now millis)) := by
    rintro ⟨hfirst, hzero | hrefused⟩
    · exact hpos.ne' hzero
    · exact haccepted hfirst hrefused
  simp only [Backend.execute, if_neg horder, h, Option.isSome_some, if_true]

theorem execute_setPxNx_expiryFirst (hfirst : backend.expiryFirst)
    (hrefused : ExpiryRefused now millis) :
    backend.execute now ks (.setPxNx key value millis) = (.error .invalidExpireTime, ks) := by
  simp only [Backend.execute, if_pos (And.intro hfirst (Or.inr hrefused))]

end Execute

/-! ## Running a script -/

section Scripts

variable {backend : Backend} {ks ks' : Keyspace κ} {now : ℕ} {command : Command κ} {α : Type}
  (f : Reply → Script κ α)

theorem call_bind_ok {reply : Reply} (h : backend.execute now ks command = (.ok reply, ks')) :
    (backend.call now command >>= f) ks = f (backend.luaReply reply) ks' := by
  simp only [bind, ExceptT.bind, ExceptT.mk, StateT.bind, Backend.call, h, Except.map,
    ExceptT.bindCont]

theorem call_bind_error {e : CommandError}
    (h : backend.execute now ks command = (.error e, ks')) :
    (backend.call now command >>= f) ks = (.error e, ks') := by
  simp only [bind, ExceptT.bind, ExceptT.mk, StateT.bind, Backend.call, h, Except.map,
    ExceptT.bindCont]
  rfl

end Scripts

/-! ## Locality

A command reads and writes its own key only, and so does anything made of commands on one key. -/

/-- The key a command is about. -/
def Command.key : Command κ → κ
  | .incr key | .pexpire key _ | .setPxNx key _ _ | .pttl key => key

/-- The operation reads and writes one key. -/
def LocalTo (key : κ) {α : Type} (op : Keyspace κ → α × Keyspace κ) : Prop :=
  ∃ f : Option Counter → α × Option Counter,
    ∀ ks, op ks = ((f (ks key)).1, Function.update ks key (f (ks key)).2)

namespace LocalTo

variable {key : κ} {α β : Type} {op : Keyspace κ → α × Keyspace κ}

theorem pure (a : α) : LocalTo key (fun ks : Keyspace κ => (a, ks)) :=
  ⟨fun c => (a, c), fun ks => by rw [Function.update_eq_self]⟩

theorem bind (h : LocalTo key op) {next : α → Keyspace κ → β × Keyspace κ}
    (hnext : ∀ a, LocalTo key (next a)) :
    LocalTo key fun ks => next (op ks).1 (op ks).2 := by
  obtain ⟨f, hf⟩ := h
  choose g hg using hnext
  refine ⟨fun c => g (f c).1 (f c).2, ?_⟩
  intro ks
  simp only [hf, hg, Function.update_self, Function.update_idem]

theorem map (h : LocalTo key op) (g : α → β) :
    LocalTo key fun ks => (g (op ks).1, (op ks).2) :=
  h.bind fun a => LocalTo.pure (g a)

/-- Nothing else changes. -/
theorem other (h : LocalTo key op) (ks : Keyspace κ) {k : κ} (hk : k ≠ key) :
    (op ks).2 k = ks k := by
  obtain ⟨f, hf⟩ := h
  rw [hf]
  exact Function.update_of_ne hk _ _

/-- Nothing else matters. -/
theorem congr (h : LocalTo key op) {ks ks' : Keyspace κ} (hks : ks key = ks' key) :
    (op ks).1 = (op ks').1 ∧ (op ks).2 key = (op ks').2 key := by
  obtain ⟨f, hf⟩ := h
  rw [hf ks, hf ks', hks]
  exact ⟨rfl, by simp⟩

end LocalTo

theorem execute_local (backend : Backend) (now : ℕ) (command : Command κ) :
    LocalTo command.key fun ks => backend.execute now ks command := by
  refine ⟨fun c => ((backend.execute now (fun _ => c) command).1,
    (backend.execute now (fun _ => c) command).2 command.key), ?_⟩
  intro ks
  have hlookup : ∀ k : κ, Keyspace.lookup (fun _ => ks k) now k = ks.lookup now k := fun k => rfl
  cases command with
  | incr k =>
    simp only [Backend.execute, Command.key, hlookup]
    split
    · simp
    · split <;> simp
  | pexpire k millis =>
    simp only [Backend.execute, Command.key, hlookup]
    split
    · simp
    · split
      · simp
      · split <;> simp
  | setPxNx k value millis =>
    simp only [Backend.execute, Command.key, hlookup]
    split
    · simp
    · split
      · simp
      · split <;> simp
  | pttl k =>
    simp only [Backend.execute, Command.key, hlookup]
    split <;> simp

/-- A transaction on one key. -/
theorem exec_local (backend : Backend) (now : ℕ) {key : κ} (commands : List (Command κ))
    (h : ∀ command ∈ commands, command.key = key) :
    LocalTo key fun ks => backend.exec now ks commands := by
  induction commands with
  | nil => exact LocalTo.pure []
  | cons command commands ih =>
    have hcommand := execute_local backend now command
    rw [h command List.mem_cons_self] at hcommand
    have hrest := ih fun c hc => h c (List.mem_cons_of_mem _ hc)
    exact hcommand.bind fun reply => hrest.map (reply :: ·)

/-- What a script does after its first part. -/
def Script.proceed {α β : Type} (next : α → Script κ β) :
    Except CommandError α → Keyspace κ → Except CommandError β × Keyspace κ
  | .ok a, ks => next a ks
  | .error e, ks => (.error e, ks)

theorem Script.bind_local {key : κ} {α β : Type} {m : Script κ α} {next : α → Script κ β}
    (hm : LocalTo key m) (hnext : ∀ a, LocalTo key (next a)) : LocalTo key (m >>= next) := by
  have hbind : (m >>= next : Script κ β) = fun ks => Script.proceed next (m ks).1 (m ks).2 := by
    funext ks
    simp only [Bind.bind, ExceptT.bind, ExceptT.mk, StateT.bind, ExceptT.bindCont]
    rcases m ks with ⟨_ | _, _⟩ <;> rfl
  rw [hbind]
  refine hm.bind ?_
  rintro (e | a)
  · exact LocalTo.pure (Except.error e)
  · exact hnext a

theorem call_local (backend : Backend) (now : ℕ) (command : Command κ) :
    LocalTo command.key (backend.call now command) :=
  (execute_local backend now command).map fun reply => reply.map backend.luaReply

end Redis
