import Mathlib.Data.List.Basic
import Mathlib.Tactic.Linarith
import Mathlib.Tactic.Ring

/-!
# Polled futures and Tower services

A component call runs in a world `σ` and may panic; `Eff` is that effect. A panic keeps what was
written before it, as unwinding does, so a future that is polled again after a caught panic resumes
from the state it had reached. A future is a state `F` polled in place, `Eff (F × σ) (Poll α)`.

`drive` polls a bounded number of times. `Delayed` is a future given by its number of pending polls
and its output: what any future does in one run. In a world that records what happens, `Completes`
says how a whole run of a future ends and `Service.Serves` what a service does with a request.
-/

namespace Rust

/-- `std::task::Poll`. -/
inductive Poll (α : Type) where
  | pending
  | ready (value : α)
deriving DecidableEq

/-- `Poll::is_ready`. -/
def Poll.isReady {α : Type} : Poll α → Bool
  | .pending => false
  | .ready _ => true

/-- What unwinds out of a call. -/
inductive Panic where
  /-- A future was polled again after it had returned its output. -/
  | polledAfterCompletion
  /-- A `loop` of the model ran out of its iteration bound. -/
  | loopBound
  /-- A component supplied by the application panicked. -/
  | component
deriving DecidableEq

/-- A call in world `σ` that may panic and keeps its writes when it does. -/
abbrev Eff (σ α : Type) := EStateM Panic σ α

theorem Eff.get_apply {σ : Type} (s : σ) : (get : Eff σ σ) s = .ok s s := rfl

theorem Eff.set_apply {σ : Type} (s s' : σ) : (set s' : Eff σ PUnit) s = .ok ⟨⟩ s' := rfl

theorem Eff.modify_apply {σ : Type} (f : σ → σ) (s : σ) :
    (modify f : Eff σ PUnit) s = .ok ⟨⟩ (f s) := rfl

section Focus

variable {σ F G α : Type}

/-- Run a call that does not touch the future being polled. -/
def onWorld (op : Eff σ α) : Eff (F × σ) α := fun s =>
  match op s.2 with
  | .ok a w => .ok a (s.1, w)
  | .error p w => .error p (s.1, w)

/-- Run an operation on a part `g` of the value, whose owner `put` rebuilds: also after a panic, as
the part is borrowed mutably. -/
def onPart (put : G → F) (g : G) (op : Eff (G × σ) α) : Eff (F × σ) α := fun s =>
  match op (g, s.2) with
  | .ok a t => .ok a (put t.1, t.2)
  | .error p t => .error p (put t.1, t.2)

end Focus

/-! ## Futures -/

/-- `std::future::Ready`: its value until it has been taken. -/
structure Ready (α : Type) where
  value : Option α

/-- `Ready::poll`, which panics once the value is gone. -/
def Ready.poll {σ α : Type} : Eff (Ready α × σ) (Poll α) := fun s =>
  match s.1.value with
  | some a => .ok (.ready a) (⟨none⟩, s.2)
  | none => .error .polledAfterCompletion s

/-- A future that is pending `pending` times and then ready with `output`. -/
structure Delayed (α : Type) where
  pending : ℕ
  output : α

/-- Poll a `Delayed` future. -/
def Delayed.poll {σ α : Type} : Eff (Delayed α × σ) (Poll α) := fun s =>
  match s.1.pending with
  | 0 => .ok (.ready s.1.output) s
  | n + 1 => .ok .pending ({ s.1 with pending := n }, s.2)

/-- Poll a future at most `n` times, stopping at its output. -/
def drive {σ F α : Type} (poll : Eff (F × σ) (Poll α)) : ℕ → Eff (F × σ) (Option α)
  | 0 => pure none
  | n + 1 => do
      match ← poll with
      | .ready a => pure (some a)
      | .pending => drive poll n

theorem drive_ready {σ F α : Type} {poll : Eff (F × σ) (Poll α)} {s s' : F × σ} {a : α}
    (h : poll s = .ok (.ready a) s') (m : ℕ) : drive poll (m + 1) s = .ok (some a) s' := by
  simp only [drive, bind, EStateM.bind, h, pure, EStateM.pure]

theorem drive_pending {σ F α : Type} {poll : Eff (F × σ) (Poll α)} {s s' : F × σ}
    (h : poll s = .ok .pending s') (m : ℕ) : drive poll (m + 1) s = drive poll m s' := by
  simp only [drive, bind, EStateM.bind, h]

/-! ## Services -/

/-- A Tower service together with its `Clone` implementation: `Inst` is the type of service values,
`Future` the type of the futures `call` returns. -/
structure Service (σ Req Res E : Type) where
  Inst : Type
  Future : Type
  clone : Inst → Eff σ Inst
  pollReady : Eff (Inst × σ) (Poll (Except E Unit))
  call : Req → Eff (Inst × σ) Future
  poll : Eff (Future × σ) (Poll (Except E Res))

/-! ## Worlds that record what happens -/

section Log

variable {ω F Req Res E α : Type}

/-- A call that returns `a` and records `e`. -/
def record (e : ω) (a : α) : Eff (List ω) α := fun log => .ok a (log ++ [e])

/-- Polling `f` after `w` was recorded is pending `n` times and then ready with `a`, when `w'` is
recorded; each poll only adds to the record. -/
inductive Completes (poll : Eff (F × List ω) (Poll α)) : ℕ → F → List ω → α → List ω → Prop where
  | ready {f f' : F} {w w' : List ω} {a : α} (h : poll (f, w) = .ok (.ready a) (f', w'))
      (hgrows : w <+: w') : Completes poll 0 f w a w'
  | pending {n : ℕ} {f f' : F} {w w' w'' : List ω} {a : α}
      (h : poll (f, w) = .ok .pending (f', w')) (hgrows : w <+: w')
      (rest : Completes poll n f' w' a w'') : Completes poll (n + 1) f w a w''

variable {poll : Eff (F × List ω) (Poll α)} {n : ℕ} {f : F} {w w' : List ω} {a : α}

/-- The record only grows along a run. -/
theorem Completes.grows (h : Completes poll n f w a w') : w <+: w' := by
  induction h with
  | ready _ hgrows => exact hgrows
  | pending _ hgrows _ ih => exact hgrows.trans ih

/-- Enough polls return the output. -/
theorem Completes.drive_of_lt (h : Completes poll n f w a w') {m : ℕ} (hm : n < m) :
    ∃ f', drive poll m (f, w) = .ok (some a) (f', w') := by
  induction h generalizing m with
  | @ready _ f' _ _ _ h _ =>
    obtain ⟨m, rfl⟩ : ∃ k, m = k + 1 := ⟨m - 1, by omega⟩
    exact ⟨f', drive_ready h m⟩
  | pending h _ _ ih =>
    obtain ⟨m, rfl⟩ : ∃ k, m = k + 1 := ⟨m - 1, by omega⟩
    obtain ⟨f', hf'⟩ := ih (m := m) (by omega)
    exact ⟨f', (drive_pending h m).trans hf'⟩

/-- Fewer polls leave the future pending, with the rest of its run ahead of it. -/
theorem Completes.drive_of_le (h : Completes poll n f w a w') {m : ℕ} (hm : m ≤ n) :
    ∃ f₁ w₁, drive poll m (f, w) = .ok none (f₁, w₁) ∧ w <+: w₁ ∧
      Completes poll (n - m) f₁ w₁ a w' := by
  induction h generalizing m with
  | @ready f f' w w' a h hgrows =>
    obtain rfl : m = 0 := by omega
    exact ⟨f, w, rfl, List.prefix_rfl, .ready h hgrows⟩
  | @pending n f f' w w' w'' a h hgrows rest ih =>
    cases m with
    | zero => exact ⟨f, w, rfl, List.prefix_rfl, .pending h hgrows rest⟩
    | succ m =>
      obtain ⟨f₁, w₁, hdrive, hgrows₁, hrest⟩ := ih (m := m) (by omega)
      refine ⟨f₁, w₁, (drive_pending h m).trans hdrive, hgrows.trans hgrows₁, ?_⟩
      rwa [Nat.add_sub_add_right]

/-- A future that is polled as `f` is after more was recorded has the run of `f`. -/
theorem Completes.congr {f₁ : F} {w₁ : List ω} (h : Completes poll n f w a w')
    (heq : poll (f₁, w₁) = poll (f, w)) (hgrows : w₁ <+: w) : Completes poll n f₁ w₁ a w' := by
  cases h with
  | ready h hgrows' => exact .ready (heq.trans h) (hgrows.trans hgrows')
  | pending h hgrows' rest => exact .pending (heq.trans h) (hgrows.trans hgrows') rest

/-- A `Delayed` future does what it says. -/
theorem Delayed.completes (f : Delayed α) (w : List ω) :
    Completes Delayed.poll f.pending f w f.output w := by
  obtain ⟨n, a⟩ := f
  induction n with
  | zero => exact .ready rfl List.prefix_rfl
  | succ n ih => exact .pending rfl List.prefix_rfl ih

/-- What a service does with one request: the number of times its future is pending, the result and
what is recorded on the way. -/
structure Reply (ω Res E : Type) where
  pending : ℕ
  result : Except E Res
  effects : List ω

/-- First `pending` more times pending and `effects`, then as before. -/
def Reply.after (pending : ℕ) (effects : List ω) (r : Reply ω Res E) : Reply ω Res E :=
  ⟨pending + r.pending, r.result, effects ++ r.effects⟩

/-- An instance of a service answers `request` with `reply`, whatever was recorded before. -/
structure Service.Serves (S : Service (List ω) Req Res E) (inst : S.Inst) (request : Req)
    (reply : Reply ω Res E) : Prop where
  clone : ∀ w, ∃ inst', S.clone inst w = .ok inst' w
  call : ∀ w, ∃ future inst' w₁, S.call request (inst, w) = .ok future (inst', w₁) ∧ w <+: w₁ ∧
    Completes S.poll reply.pending future w₁ reply.result (w ++ reply.effects)

/-- The requests of a service that records each call and answers with a `Delayed` future. -/
def Service.recorded (label : Req → ω) (answer : Req → Delayed (Except E Res)) :
    Service (List ω) Req Res E where
  Inst := Unit
  Future := Delayed (Except E Res)
  clone inst := pure inst
  pollReady := pure (.ready (.ok ()))
  call request := onWorld (record (label request) (answer request))
  poll := Delayed.poll

theorem Service.recorded_serves (label : Req → ω) (answer : Req → Delayed (Except E Res))
    (request : Req) :
    (Service.recorded label answer).Serves () request
      ⟨(answer request).pending, (answer request).output, [label request]⟩ where
  clone _ := ⟨(), rfl⟩
  call w := ⟨answer request, (), w ++ [label request], rfl, List.prefix_append _ _,
    Delayed.completes _ _⟩

end Log

end Rust
