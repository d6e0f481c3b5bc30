import Mathlib.Data.List.Nodup
import Mathlib.Data.List.Induction
import Mathlib.Data.List.Infix

/-!
# A server and commands in flight

Clients hand commands to a server and may later ask for their answers. Once sent, a command is out
of the client's hands: the server executes it at some time or never, in any order, but not twice.
A ticket is the position of a command among those sent.

`Linear` is what can be said about the server whatever happens on the way: its state and its answers
are those of the executed commands, run one after another.

Main results:

* `Linear.send`, `Linear.execute`: every step keeps it;
* `Linear.nodup_executed`: clients that send one command each are executed once each;
* `Linear.restrict`: where commands touch one key each, the keys have linear histories of their own;
* `countdown`: what gets nearer with every step of one kind, and no farther with the others, is
  reached.
-/

namespace Remote

variable {σ α τ β κ : Type*}

/-- An executed command: its ticket, what the server read from its surroundings at the time, and the
answer. -/
structure Execution (α τ β : Type*) where
  ticket : ℕ
  command : α
  reading : τ
  answer : β

/-- The state of the server, the commands sent so far and those executed, in order. -/
structure Server (σ α τ β : Type*) where
  state : σ
  sent : List α
  executed : List (Execution α τ β)

namespace Server

/-- A server that has heard of no command. -/
def start (s : σ) : Server σ α τ β := ⟨s, [], []⟩

/-- Hand over a command. Its ticket is the number of commands before it. -/
def send (s : Server σ α τ β) (a : α) : Server σ α τ β := { s with sent := s.sent ++ [a] }

/-- The answer to the command with a ticket, once it is executed. -/
def answer? (s : Server σ α τ β) (ticket : ℕ) : Option β :=
  (s.executed.find? (·.ticket = ticket)).map Execution.answer

/-- The command with a ticket is still to be executed. -/
def Pending (s : Server σ α τ β) (ticket : ℕ) : Prop := ∀ x ∈ s.executed, x.ticket ≠ ticket

instance (s : Server σ α τ β) (ticket : ℕ) : Decidable (s.Pending ticket) :=
  inferInstanceAs (Decidable (∀ x ∈ s.executed, x.ticket ≠ ticket))

/-- Execute the command with a ticket, if it was sent and has not been executed. -/
def execute (run : σ → α → τ → β × σ) (s : Server σ α τ β) (ticket : ℕ) (t : τ) :
    Server σ α τ β :=
  match s.sent[ticket]? with
  | some a =>
      if s.Pending ticket then
        { s with
          state := (run s.state a t).2
          executed := s.executed ++ [⟨ticket, a, t, (run s.state a t).1⟩] }
      else s
  | none => s

/-- An execution changes nothing, or runs a command that was sent and is pending. -/
theorem execute_cases (run : σ → α → τ → β × σ) (s : Server σ α τ β) (ticket : ℕ) (t : τ) :
    s.execute run ticket t = s ∨
      ∃ a, s.sent[ticket]? = some a ∧ s.Pending ticket ∧
        s.execute run ticket t =
          { s with
            state := (run s.state a t).2
            executed := s.executed ++ [⟨ticket, a, t, (run s.state a t).1⟩] } := by
  unfold execute
  cases hsent : s.sent[ticket]? with
  | none => exact .inl rfl
  | some a =>
    by_cases hpending : s.Pending ticket
    · exact .inr ⟨a, rfl, hpending, if_pos hpending⟩
    · exact .inl (if_neg hpending)

theorem prefix_executed (run : σ → α → τ → β × σ) (s : Server σ α τ β) (ticket : ℕ) (t : τ) :
    s.executed <+: (s.execute run ticket t).executed := by
  rcases s.execute_cases run ticket t with heq | ⟨a, -, -, heq⟩ <;> rw [heq]
  exact List.prefix_append _ _

theorem sent_execute (run : σ → α → τ → β × σ) (s : Server σ α τ β) (ticket : ℕ) (t : τ) :
    (s.execute run ticket t).sent = s.sent := by
  rcases s.execute_cases run ticket t with heq | ⟨a, -, -, heq⟩ <;> rw [heq]

/-- An answer comes from an execution. -/
theorem exists_of_answer? {s : Server σ α τ β} {ticket : ℕ} {b : β}
    (h : s.answer? ticket = some b) : ∃ x ∈ s.executed, x.ticket = ticket ∧ x.answer = b := by
  obtain ⟨x, hx, rfl⟩ := Option.map_eq_some_iff.mp h
  exact ⟨x, List.mem_of_find?_eq_some hx, by simpa using List.find?_some hx, rfl⟩

/-- An executed command has an answer. -/
theorem isSome_answer?_of_mem {s : Server σ α τ β} {x : Execution α τ β} (hx : x ∈ s.executed) :
    (s.answer? x.ticket).isSome := by
  rw [answer?, Option.isSome_map, List.find?_isSome]
  exact ⟨x, hx, decide_eq_true rfl⟩

/-- An answer stays. -/
theorem isSome_answer?_mono {s s' : Server σ α τ β} (hgrows : s.executed <+: s'.executed)
    {ticket : ℕ} (h : (s.answer? ticket).isSome) : (s'.answer? ticket).isSome := by
  obtain ⟨b, hb⟩ := Option.isSome_iff_exists.mp h
  obtain ⟨x, hx, rfl, -⟩ := exists_of_answer? hb
  exact isSome_answer?_of_mem (hgrows.subset hx)

end Server

/-! ## Replay -/

/-- Run commands one after another. -/
def replay (run : σ → α → τ → β × σ) : σ → List (α × τ) → List β × σ
  | s, [] => ([], s)
  | s, (a, t) :: rest =>
      ((run s a t).1 :: (replay run (run s a t).2 rest).1, (replay run (run s a t).2 rest).2)

theorem replay_concat (run : σ → α → τ → β × σ) (s : σ) (commands : List (α × τ)) (a : α) (t : τ) :
    replay run s (commands ++ [(a, t)]) =
      ((replay run s commands).1 ++ [(run (replay run s commands).2 a t).1],
        (run (replay run s commands).2 a t).2) := by
  induction commands generalizing s with
  | nil => rfl
  | cons c commands ih => simp only [List.cons_append, replay, ih]

/-- The commands that the server has executed, with what it read then. -/
def Server.commands (s : Server σ α τ β) : List (α × τ) :=
  s.executed.map fun x => (x.command, x.reading)

/-- The server has run the executed commands one after another from `s₀`, each under its own ticket
and none twice. -/
structure Linear (run : σ → α → τ → β × σ) (s₀ : σ) (s : Server σ α τ β) : Prop where
  state : s.state = (replay run s₀ s.commands).2
  answers : s.executed.map Execution.answer = (replay run s₀ s.commands).1
  tickets : (s.executed.map Execution.ticket).Nodup
  sent : ∀ x ∈ s.executed, s.sent[x.ticket]? = some x.command

namespace Linear

variable {run : σ → α → τ → β × σ} {s₀ : σ} {s : Server σ α τ β}

theorem start : Linear run s₀ (Server.start s₀ : Server σ α τ β) where
  state := rfl
  answers := rfl
  tickets := List.nodup_nil
  sent _ hx := absurd hx List.not_mem_nil

/-- Sending a command keeps the server linear. -/
theorem send (h : Linear run s₀ s) (a : α) : Linear run s₀ (s.send a) where
  state := h.state
  answers := h.answers
  tickets := h.tickets
  sent x hx := by
    have hold := h.sent x hx
    obtain ⟨hlt, -⟩ := List.getElem?_eq_some_iff.mp hold
    rw [Server.send, List.getElem?_append_left hlt]
    exact hold

/-- Executing a command keeps the server linear. -/
theorem execute (h : Linear run s₀ s) (ticket : ℕ) (t : τ) :
    Linear run s₀ (s.execute run ticket t) := by
  rcases s.execute_cases run ticket t with heq | ⟨a, hsent, hpending, heq⟩ <;> rw [heq]
  · exact h
  · refine ⟨?_, ?_, ?_, ?_⟩
    · simp only [Server.commands, List.map_append, List.map_cons, List.map_nil]
      rw [replay_concat, ← Server.commands, ← h.state]
    · simp only [Server.commands, List.map_append, List.map_cons, List.map_nil]
      rw [replay_concat, ← Server.commands, ← h.state, h.answers]
    · rw [List.map_append]
      refine List.nodup_append'.mpr ⟨h.tickets, List.nodup_singleton _, ?_⟩
      intro k hk hk'
      obtain ⟨x, hx, rfl⟩ := List.mem_map.mp hk
      exact hpending x hx (List.mem_singleton.mp hk')
    · intro x hx
      rcases List.mem_append.mp hx with hx | hx
      · exact h.sent x hx
      · obtain rfl := List.mem_singleton.mp hx
        exact hsent

/-- Every executed command was sent. -/
theorem mem_sent (h : Linear run s₀ s) {x : Execution α τ β} (hx : x ∈ s.executed) :
    x.command ∈ s.sent :=
  List.mem_of_getElem? (h.sent x hx)

theorem ticket_lt (h : Linear run s₀ s) {x : Execution α τ β} (hx : x ∈ s.executed) :
    x.ticket < s.sent.length :=
  (List.getElem?_eq_some_iff.mp (h.sent x hx)).1

/-- **Commands with different owners are executed for different owners.** -/
theorem nodup_executed (h : Linear run s₀ s) {owner : α → κ} (hsent : (s.sent.map owner).Nodup) :
    (s.executed.map fun x => owner x.command).Nodup := by
  have hmap : (s.executed.map Execution.ticket).map (fun t => (s.sent.map owner)[t]?) =
      (s.executed.map fun x => owner x.command).map some := by
    rw [List.map_map, List.map_map]
    refine List.map_congr_left fun x hx => ?_
    simp only [Function.comp_apply, List.getElem?_map, h.sent x hx, Option.map_some]
  apply List.Nodup.of_map some
  rw [← hmap]
  refine List.Nodup.map_on ?_ h.tickets
  intro i hi j hj hij
  obtain ⟨x, hx, rfl⟩ := List.mem_map.mp hi
  have hlt : x.ticket < (s.sent.map owner).length := by
    rw [List.length_map]
    exact h.ticket_lt hx
  exact (List.getElem?_inj hlt hsent).mp hij

/-- An owner that has been executed has the answer under the ticket of its only command. -/
theorem isSome_answer? (h : Linear run s₀ s) {owner : α → κ} (hsent : (s.sent.map owner).Nodup)
    {ticket : ℕ} {a : α} (hticket : s.sent[ticket]? = some a) {x : Execution α τ β}
    (hx : x ∈ s.executed) (howner : owner x.command = owner a) : (s.answer? ticket).isSome := by
  have hplace : (s.sent.map owner)[x.ticket]? = (s.sent.map owner)[ticket]? := by
    simp only [List.getElem?_map, h.sent x hx, hticket, Option.map_some, howner]
  have hlt : x.ticket < (s.sent.map owner).length := by
    rw [List.length_map]
    exact h.ticket_lt hx
  rw [← (List.getElem?_inj hlt hsent).mp hplace]
  exact Server.isSome_answer?_of_mem hx

end Linear

/-! ## Keys -/

section Keys

variable {ν : Type*} [DecidableEq κ] {run : (κ → ν) → α → τ → β × (κ → ν)} {key : α → κ}

/-- If every command reads and writes one key, then the commands of other keys make no difference to
what those of a key answer and leave under it. -/
theorem replay_restrict (hother : ∀ s a t k, k ≠ key a → (run s a t).2 k = s k)
    (hcongr : ∀ s s' a t, s (key a) = s' (key a) →
      (run s a t).1 = (run s' a t).1 ∧ (run s a t).2 (key a) = (run s' a t).2 (key a))
    {k : κ} {s s' : κ → ν} (hs : s k = s' k) (commands : List (α × τ)) :
    ((commands.zip (replay run s commands).1).filter (fun x => key x.1.1 = k)).map Prod.snd =
        (replay run s' (commands.filter fun x => key x.1 = k)).1 ∧
      (replay run s commands).2 k =
        (replay run s' (commands.filter fun x => key x.1 = k)).2 k := by
  induction commands generalizing s s' with
  | nil => exact ⟨rfl, hs⟩
  | cons c commands ih =>
    obtain ⟨a, t⟩ := c
    by_cases hk : key a = k
    · subst hk
      obtain ⟨hanswer, hstate⟩ := hcongr s s' a t hs
      obtain ⟨hanswers, hlast⟩ := ih hstate
      simp only [replay, List.zip_cons_cons, List.filter_cons, decide_true, if_true, List.map_cons,
        hanswer]
      exact ⟨congrArg _ hanswers, hlast⟩
    · have hstate : (run s a t).2 k = s' k := (hother s a t k (Ne.symm hk)).trans hs
      simp only [replay, List.zip_cons_cons, List.filter_cons, decide_eq_false hk,
        Bool.false_eq_true, if_false]
      exact ih hstate

/-- **The keys of a linear server have linear histories of their own.** -/
theorem Linear.restrict {s₀ : κ → ν} {s : Server (κ → ν) α τ β} (h : Linear run s₀ s)
    (hother : ∀ s a t k, k ≠ key a → (run s a t).2 k = s k)
    (hcongr : ∀ s s' a t, s (key a) = s' (key a) →
      (run s a t).1 = (run s' a t).1 ∧ (run s a t).2 (key a) = (run s' a t).2 (key a))
    (k : κ) :
    let mine := s.executed.filter fun x => key x.command = k
    let commands := mine.map fun x => (x.command, x.reading)
    mine.map Execution.answer = (replay run s₀ commands).1 ∧
      s.state k = (replay run s₀ commands).2 k := by
  intro mine commands
  obtain ⟨hanswers, hstate⟩ := replay_restrict hother hcongr (rfl : s₀ k = s₀ k) s.commands
  have hcommands : s.commands.filter (fun x => key x.1 = k) = commands := by
    rw [Server.commands, List.filter_map]
    rfl
  rw [hcommands] at hanswers hstate
  refine ⟨?_, by rw [h.state, hstate]⟩
  rw [← hanswers, ← h.answers, Server.commands, List.zip_map', List.filter_map, List.map_map]
  rfl

end Keys

/-- What was executed by some time comes before what was not. -/
theorem lt_of_executed {before all : List κ} (hgrows : before <+: all) (hnodup : all.Nodup) {a b : κ}
    (ha : a ∈ before) (hb : b ∉ before) {i j : ℕ} (hi : all[i]? = some a) (hj : all[j]? = some b) :
    i < j := by
  obtain ⟨later, rfl⟩ := hgrows
  obtain ⟨i₀, hi₀⟩ := List.mem_iff_getElem?.mp ha
  have hlt : i₀ < before.length := (List.getElem?_eq_some_iff.mp hi₀).1
  have hplace : (before ++ later)[i₀]? = some a := (List.getElem?_append_left hlt).trans hi₀
  obtain rfl : i₀ = i := by
    refine (List.getElem?_inj ?_ hnodup).mp (hplace.trans hi.symm)
    rw [List.length_append]
    omega
  by_contra hle
  have hj' : before[j]? = some b := by
    rw [← hj, List.getElem?_append_left (by omega)]
  exact hb (List.mem_of_getElem? hj')

/-! ## Countdowns -/

/-- `P n` is that the goal is at most `n` steps away. If every step keeps that and a `useful` one
takes a step off, then a run takes off as many as it has useful steps. -/
theorem countdown {ε : Type*} {step : σ → ε → σ} {P : ℕ → σ → Prop} {allowed : ε → Prop}
    {useful : ε → Bool} (hkeeps : ∀ n s e, allowed e → P n s → P n (step s e))
    (hgains : ∀ n s e, allowed e → useful e = true → P (n + 1) s → P n (step s e))
    {events : List ε} (hallowed : ∀ e ∈ events, allowed e) {n : ℕ} (hn : n ≤ events.countP useful)
    {s : σ} (h : P n s) : P 0 (events.foldl step s) := by
  induction events generalizing n s with
  | nil =>
    obtain rfl : n = 0 := Nat.le_zero.mp hn
    exact h
  | cons e events ih =>
    have hrest : ∀ e ∈ events, allowed e := fun e he => hallowed e (List.mem_cons_of_mem _ he)
    have hfirst := hallowed e List.mem_cons_self
    have hkept := hkeeps n s e hfirst h
    by_cases huseful : useful e = true
    · rw [List.countP_cons_of_pos huseful] at hn
      cases n with
      | zero => exact ih hrest (Nat.zero_le _) hkept
      | succ n => exact ih hrest (Nat.le_of_succ_le_succ hn) (hgains n s e hfirst huseful h)
    · rw [List.countP_cons_of_neg huseful] at hn
      exact ih hrest hn hkept

end Remote
