import Mathlib.Data.Option.Basic
import Mathlib.Logic.Function.Basic
import TowerRateLimiter.Common.Observe

/-!
# Coupled programs

Two programs in different worlds that do the same. `Coupled pre op₁ op₂ post unwound` says that from
states related by `pre` both calls return, with values and states related by `post`, or both unwind
with the same panic in states related by `unwound`. The rules follow the program text: one for each
way of putting calls together.

A `Service.Coupling` couples the operations of two services. What callers do with a service, in any
order and however they interleave, is a run of `Callers`; coupled services let them hear the same
(`Callers.Coupled.run`).
-/

namespace Rust

open Function (update)

variable {s₁ s₂ σ₁ σ₂ F₁ F₂ G₁ G₂ α₁ α₂ β₁ β₂ : Type}

/-! ## Coupled calls -/

/-- Two calls end alike. -/
inductive Alike (post : α₁ → α₂ → s₁ → s₂ → Prop) (unwound : s₁ → s₂ → Prop) :
    EStateM.Result Panic s₁ α₁ → EStateM.Result Panic s₂ α₂ → Prop where
  | ok {a₁ : α₁} {a₂ : α₂} {t₁ : s₁} {t₂ : s₂} (h : post a₁ a₂ t₁ t₂) :
      Alike post unwound (.ok a₁ t₁) (.ok a₂ t₂)
  | error {p : Panic} {t₁ : s₁} {t₂ : s₂} (h : unwound t₁ t₂) :
      Alike post unwound (.error p t₁) (.error p t₂)

/-- From states related by `pre`, two calls end alike. -/
def Coupled (pre : s₁ → s₂ → Prop) (op₁ : Eff s₁ α₁) (op₂ : Eff s₂ α₂)
    (post : α₁ → α₂ → s₁ → s₂ → Prop) (unwound : s₁ → s₂ → Prop) : Prop :=
  ∀ t₁ t₂, pre t₁ t₂ → Alike post unwound (op₁ t₁) (op₂ t₂)

/-- A value and a world are related component by component. -/
def Both (R : F₁ → F₂ → Prop) (W : σ₁ → σ₂ → Prop) (s : F₁ × σ₁) (t : F₂ × σ₂) : Prop :=
  R s.1 t.1 ∧ W s.2 t.2

/-- The two calls return the same value and leave related states. -/
def Same {α : Type} (W : s₁ → s₂ → Prop) (a b : α) (t₁ : s₁) (t₂ : s₂) : Prop := a = b ∧ W t₁ t₂

namespace Alike

variable {post post' : α₁ → α₂ → s₁ → s₂ → Prop} {unwound unwound' : s₁ → s₂ → Prop}
  {r₁ : EStateM.Result Panic s₁ α₁} {r₂ : EStateM.Result Panic s₂ α₂}

theorem mono (h : Alike post unwound r₁ r₂)
    (hpost : ∀ a₁ a₂ t₁ t₂, post a₁ a₂ t₁ t₂ → post' a₁ a₂ t₁ t₂)
    (hunwound : ∀ t₁ t₂, unwound t₁ t₂ → unwound' t₁ t₂) : Alike post' unwound' r₁ r₂ := by
  cases h with
  | ok h => exact .ok (hpost _ _ _ _ h)
  | error h => exact .error (hunwound _ _ h)

end Alike

namespace Coupled

variable {pre : s₁ → s₂ → Prop} {post : α₁ → α₂ → s₁ → s₂ → Prop} {unwound : s₁ → s₂ → Prop}

theorem pure {a₁ : α₁} {a₂ : α₂} (h : ∀ t₁ t₂, pre t₁ t₂ → post a₁ a₂ t₁ t₂) :
    Coupled pre (pure a₁) (pure a₂) post unwound :=
  fun t₁ t₂ hpre => .ok (h t₁ t₂ hpre)

theorem bind {mid : β₁ → β₂ → s₁ → s₂ → Prop} {op₁ : Eff s₁ β₁} {op₂ : Eff s₂ β₂}
    {k₁ : β₁ → Eff s₁ α₁} {k₂ : β₂ → Eff s₂ α₂} (h : Coupled pre op₁ op₂ mid unwound)
    (hk : ∀ b₁ b₂, Coupled (mid b₁ b₂) (k₁ b₁) (k₂ b₂) post unwound) :
    Coupled pre (op₁ >>= k₁) (op₂ >>= k₂) post unwound := by
  intro t₁ t₂ hpre
  have hop := h t₁ t₂ hpre
  show Alike post unwound (EStateM.bind op₁ k₁ t₁) (EStateM.bind op₂ k₂ t₂)
  unfold EStateM.bind
  cases hr₁ : op₁ t₁ with
  | ok b₁ u₁ =>
    cases hr₂ : op₂ t₂ with
    | ok b₂ u₂ =>
      rw [hr₁, hr₂] at hop
      cases hop with
      | ok hmid => exact hk b₁ b₂ u₁ u₂ hmid
    | error p u₂ =>
      rw [hr₁, hr₂] at hop
      cases hop
  | error p u₁ =>
    cases hr₂ : op₂ t₂ with
    | ok b₂ u₂ =>
      rw [hr₁, hr₂] at hop
      cases hop
    | error p' u₂ =>
      rw [hr₁, hr₂] at hop
      cases hop with
      | error h => exact .error h

/-- A call that only the first program makes, and that never unwinds. -/
theorem left {mid : s₁ → s₂ → Prop} {op₁ : Eff s₁ β₁} {k₁ : β₁ → Eff s₁ α₁} {op₂ : Eff s₂ α₂}
    (h : Coupled pre op₁ (Pure.pure () : Eff s₂ Unit) (fun _ _ => mid) unwound)
    (hk : ∀ b, Coupled mid (k₁ b) op₂ post unwound) :
    Coupled pre (op₁ >>= k₁) op₂ post unwound := by
  show Coupled pre (op₁ >>= k₁) ((Pure.pure () : Eff s₂ Unit) >>= fun _ => op₂) post unwound
  exact bind h fun b _ => hk b

/-- A call that does not touch the value keeps what relates the values. -/
theorem onWorld {R : F₁ → F₂ → Prop} {W W' : σ₁ → σ₂ → Prop} {post : α₁ → α₂ → σ₁ → σ₂ → Prop}
    {op₁ : Eff σ₁ α₁} {op₂ : Eff σ₂ α₂} (h : Coupled W op₁ op₂ post W') :
    Coupled (Both R W) (Rust.onWorld op₁) (Rust.onWorld op₂)
      (fun a₁ a₂ => Both R (post a₁ a₂)) (Both R W') := by
  rintro ⟨f₁, w₁⟩ ⟨f₂, w₂⟩ ⟨hR, hW⟩
  have hop := h w₁ w₂ hW
  unfold Rust.onWorld
  generalize op₁ w₁ = r₁ at hop ⊢
  generalize op₂ w₂ = r₂ at hop ⊢
  cases hop with
  | ok hpost => exact .ok ⟨hR, hpost⟩
  | error h => exact .error ⟨hR, h⟩

/-- An operation on related parts, whose owners are related again once they are put back. -/
theorem onPart {R : F₁ → F₂ → Prop} {Q : G₁ → G₂ → Prop} {W W' : σ₁ → σ₂ → Prop}
    {post : α₁ → α₂ → G₁ × σ₁ → G₂ × σ₂ → Prop} {put₁ : G₁ → F₁} {put₂ : G₂ → F₂} {g₁ : G₁} {g₂ : G₂}
    {op₁ : Eff (G₁ × σ₁) α₁} {op₂ : Eff (G₂ × σ₂) α₂}
    (h : Coupled (Both Q W) op₁ op₂ post (Both Q W')) (hg : Q g₁ g₂)
    (hput : ∀ g₁ g₂, Q g₁ g₂ → R (put₁ g₁) (put₂ g₂)) :
    Coupled (fun t₁ t₂ => W t₁.2 t₂.2) (Rust.onPart put₁ g₁ op₁) (Rust.onPart put₂ g₂ op₂)
      (fun a₁ a₂ t₁ t₂ => ∃ g₁ g₂, t₁.1 = put₁ g₁ ∧ t₂.1 = put₂ g₂ ∧
        post a₁ a₂ (g₁, t₁.2) (g₂, t₂.2))
      (Both R W') := by
  rintro ⟨f₁, w₁⟩ ⟨f₂, w₂⟩ hW
  have hop := h (g₁, w₁) (g₂, w₂) ⟨hg, hW⟩
  unfold Rust.onPart
  dsimp only
  generalize op₁ (g₁, w₁) = r₁ at hop ⊢
  generalize op₂ (g₂, w₂) = r₂ at hop ⊢
  cases hop with
  | ok hpost => exact .ok ⟨_, _, rfl, rfl, hpost⟩
  | error h => exact .error ⟨hput _ _ h.1, h.2⟩

end Coupled

/-! ## Coupled services -/

variable {Req Res E ω : Type}

/-- Two services do the same, in worlds related by `W`. -/
structure Service.Coupling (W : σ₁ → σ₂ → Prop) (S₁ : Service σ₁ Req Res E)
    (S₂ : Service σ₂ Req Res E) where
  Inst : S₁.Inst → S₂.Inst → Prop
  Future : S₁.Future → S₂.Future → Prop
  clone : ∀ i₁ i₂, Inst i₁ i₂ → Coupled W (S₁.clone i₁) (S₂.clone i₂)
    (fun j₁ j₂ w₁ w₂ => Inst j₁ j₂ ∧ W w₁ w₂) W
  pollReady : Coupled (Both Inst W) S₁.pollReady S₂.pollReady (Same (Both Inst W)) (Both Inst W)
  call : ∀ request, Coupled (Both Inst W) (S₁.call request) (S₂.call request)
    (fun f₁ f₂ t₁ t₂ => Future f₁ f₂ ∧ Both Inst W t₁ t₂) (Both Inst W)
  poll : Coupled (Both Future W) S₁.poll S₂.poll (Same (Both Future W)) (Both Future W)

/-! ## Components beside different records -/

section Records

variable {σ L₁ L₂ F α : Type}

/-- Two worlds with a record each: the worlds are the same and the records related. -/
def SameWorld (V : L₁ → L₂ → Prop) (s : σ × L₁) (t : σ × L₂) : Prop := s.1 = t.1 ∧ V s.2 t.2

/-- What happens in the world does not touch the record beside it. -/
def beside {L : Type} (change : ω → σ → σ) (event : ω) (s : σ × L) : σ × L :=
  (change event s.1, s.2)

theorem sameWorld_beside {V : L₁ → L₂ → Prop} (change : ω → σ → σ) (event : ω) (s : σ × L₁)
    (t : σ × L₂) (h : SameWorld V s t) :
    SameWorld V (beside change event s) (beside change event t) :=
  ⟨congrArg (change event) h.1, h.2⟩

/-- A call that leaves no trace does the same whichever record is kept beside it. -/
theorem coupled_unnoted (V : L₁ → L₂ → Prop) (op : Eff σ α) :
    Coupled (SameWorld V) (noted unnoted op) (noted unnoted op) (Same (SameWorld V))
      (SameWorld V) := by
  rintro ⟨w, l₁⟩ ⟨_, l₂⟩ ⟨rfl, hV⟩
  simp only [noted, logged]
  rcases op w with ⟨a, w'⟩ | ⟨p, w'⟩
  · exact .ok ⟨rfl, rfl, hV⟩
  · exact .error ⟨rfl, hV⟩

/-- The same for an operation on a value. -/
theorem coupled_unnotedPart (V : L₁ → L₂ → Prop) (op : Eff (F × σ) α) :
    Coupled (Both Eq (SameWorld V)) (notedPart unnoted op) (notedPart unnoted op)
      (Same (Both Eq (SameWorld V))) (Both Eq (SameWorld V)) := by
  rintro ⟨f, w, l₁⟩ ⟨_, _, l₂⟩ ⟨rfl, rfl, hV⟩
  simp only [notedPart, loggedPart]
  rcases op (f, w) with ⟨a, f', w'⟩ | ⟨p, f', w'⟩
  · exact .ok ⟨rfl, rfl, rfl, hV⟩
  · exact .error ⟨rfl, rfl, hV⟩

/-- A service that leaves no trace in the record beside it. -/
def Service.unwatched (L : Type) (S : Service σ Req Res E) : Service (σ × L) Req Res E where
  Inst := S.Inst
  Future := S.Future
  clone inst := noted unnoted (S.clone inst)
  pollReady := notedPart unnoted S.pollReady
  call request := notedPart unnoted (S.call request)
  poll := notedPart unnoted S.poll

/-- It does the same whichever record that is. -/
def Service.unwatchedCoupling (V : L₁ → L₂ → Prop) (S : Service σ Req Res E) :
    Service.Coupling (SameWorld V) (S.unwatched L₁) (S.unwatched L₂) where
  Inst := Eq
  Future := Eq
  clone := by
    rintro inst _ rfl
    exact coupled_unnoted V (S.clone inst)
  pollReady := coupled_unnotedPart V S.pollReady
  call request := coupled_unnotedPart V (S.call request)
  poll := coupled_unnotedPart V S.poll

end Records

/-! ## Callers -/

/-- The service values and futures that callers hold, under names they choose, and the world. -/
structure Callers {σ : Type} (S : Service σ Req Res E) where
  services : ℕ → Option S.Inst
  futures : ℕ → Option S.Future
  world : σ

/-- What a caller does. `elsewhere` is what happens in the world otherwise. -/
inductive CallerOp (ω Req : Type) where
  | clone (service copy : ℕ)
  | discard (service : ℕ)
  | pollReady (service : ℕ)
  | call (service request : ℕ) (input : Req)
  | poll (request : ℕ)
  | drop (request : ℕ)
  | elsewhere (event : ω)

/-- What the caller hears of it. -/
inductive Heard (Res E : Type) where
  | nothing
  | readiness (result : Poll (Except E Unit))
  | response (result : Poll (Except E Res))
  | panicked (p : Panic)

namespace Callers

section Step

variable {σ : Type} {S : Service σ Req Res E}

/-- One service value under the name 0. -/
def start (service : S.Inst) (w : σ) : Callers S where
  services := update (fun _ => none) 0 (some service)
  futures := fun _ => none
  world := w

/-- One operation. An operation that names nothing does nothing. -/
def step (change : ω → σ → σ) (c : Callers S) : CallerOp ω Req → Heard Res E × Callers S
  | .clone i k =>
      match c.services i with
      | none => (.nothing, c)
      | some service =>
          match S.clone service c.world with
          | .ok copy w =>
              (.nothing, { c with services := update c.services k (some copy), world := w })
          | .error p w => (.panicked p, { c with world := w })
  | .discard i => (.nothing, { c with services := update c.services i none })
  | .pollReady i =>
      match c.services i with
      | none => (.nothing, c)
      | some service =>
          match S.pollReady (service, c.world) with
          | .ok result (service, w) =>
              (.readiness result,
                { c with services := update c.services i (some service), world := w })
          | .error p (service, w) =>
              (.panicked p, { c with services := update c.services i (some service), world := w })
  | .call i k input =>
      match c.services i with
      | none => (.nothing, c)
      | some service =>
          match S.call input (service, c.world) with
          | .ok future (service, w) =>
              (.nothing,
                { services := update c.services i (some service)
                  futures := update c.futures k (some future)
                  world := w })
          | .error p (service, w) =>
              (.panicked p, { c with services := update c.services i (some service), world := w })
  | .poll k =>
      match c.futures k with
      | none => (.nothing, c)
      | some future =>
          match S.poll (future, c.world) with
          | .ok result (future, w) =>
              (.response result,
                { c with futures := update c.futures k (some future), world := w })
          | .error p (future, w) =>
              (.panicked p, { c with futures := update c.futures k (some future), world := w })
  | .drop k => (.nothing, { c with futures := update c.futures k none })
  | .elsewhere event => (.nothing, { c with world := change event c.world })

/-- A sequence of operations, with what is heard of each. -/
def run (change : ω → σ → σ) : List (CallerOp ω Req) → Callers S → List (Heard Res E) × Callers S
  | [], c => ([], c)
  | op :: ops, c =>
      let (heard, c) := c.step change op
      let (later, c) := run change ops c
      (heard :: later, c)

end Step

variable {W : σ₁ → σ₂ → Prop} {S₁ : Service σ₁ Req Res E} {S₂ : Service σ₂ Req Res E}
  {C : Service.Coupling W S₁ S₂} {c₁ : Callers S₁} {c₂ : Callers S₂} {change₁ : ω → σ₁ → σ₁}
  {change₂ : ω → σ₂ → σ₂}

/-- Callers of coupled services hold related values and futures under the same names. -/
structure Coupled (C : Service.Coupling W S₁ S₂) (c₁ : Callers S₁) (c₂ : Callers S₂) : Prop where
  services : ∀ i, Option.Rel C.Inst (c₁.services i) (c₂.services i)
  futures : ∀ k, Option.Rel C.Future (c₁.futures k) (c₂.futures k)
  world : W c₁.world c₂.world

namespace Coupled

/-- Related entries under one name keep two tables related. -/
theorem table {α₁ α₂ : Type} {R : α₁ → α₂ → Prop} {table₁ : ℕ → Option α₁} {table₂ : ℕ → Option α₂}
    (h : ∀ i, Option.Rel R (table₁ i) (table₂ i)) {x₁ : Option α₁} {x₂ : Option α₂}
    (hx : Option.Rel R x₁ x₂) (k i : ℕ) :
    Option.Rel R (update table₁ k x₁ i) (update table₂ k x₂ i) := by
  rw [Function.update_apply, Function.update_apply]
  split
  · exact hx
  · exact h i

theorem start {service₁ : S₁.Inst} {service₂ : S₂.Inst} (hservice : C.Inst service₁ service₂)
    {w₁ : σ₁} {w₂ : σ₂} (hw : W w₁ w₂) :
    Coupled C (Callers.start service₁ w₁) (Callers.start service₂ w₂) where
  services := table (fun _ => .none) (.some hservice) 0
  futures _ := .none
  world := hw

/-- One operation: the callers hear the same and hold related values again. -/
theorem step (h : Coupled C c₁ c₂)
    (hchange : ∀ event w₁ w₂, W w₁ w₂ → W (change₁ event w₁) (change₂ event w₂))
    (op : CallerOp ω Req) :
    (c₁.step change₁ op).1 = (c₂.step change₂ op).1 ∧
      Coupled C (c₁.step change₁ op).2 (c₂.step change₂ op).2 := by
  cases op with
  | clone i k =>
    have hservice := h.services i
    unfold Callers.step
    dsimp only
    generalize c₁.services i = x₁ at hservice ⊢
    generalize c₂.services i = x₂ at hservice ⊢
    cases hservice with
    | none => exact ⟨rfl, h⟩
    | some hservice =>
      have hop := C.clone _ _ hservice c₁.world c₂.world h.world
      dsimp only
      revert hop
      generalize S₁.clone _ c₁.world = r₁
      generalize S₂.clone _ c₂.world = r₂
      rintro (⟨hcopy, hw⟩ | hw)
      · exact ⟨rfl, table h.services (.some hcopy) k, h.futures, hw⟩
      · exact ⟨rfl, h.services, h.futures, hw⟩
  | discard i => exact ⟨rfl, table h.services .none i, h.futures, h.world⟩
  | pollReady i =>
    have hservice := h.services i
    unfold Callers.step
    dsimp only
    generalize c₁.services i = x₁ at hservice ⊢
    generalize c₂.services i = x₂ at hservice ⊢
    cases hservice with
    | none => exact ⟨rfl, h⟩
    | some hservice =>
      have hop := C.pollReady (_, c₁.world) (_, c₂.world) ⟨hservice, h.world⟩
      dsimp only
      revert hop
      generalize S₁.pollReady _ = r₁
      generalize S₂.pollReady _ = r₂
      rintro (⟨rfl, hinst, hw⟩ | ⟨hinst, hw⟩)
      · exact ⟨rfl, table h.services (.some hinst) i, h.futures, hw⟩
      · exact ⟨rfl, table h.services (.some hinst) i, h.futures, hw⟩
  | call i k input =>
    have hservice := h.services i
    unfold Callers.step
    dsimp only
    generalize c₁.services i = x₁ at hservice ⊢
    generalize c₂.services i = x₂ at hservice ⊢
    cases hservice with
    | none => exact ⟨rfl, h⟩
    | some hservice =>
      have hop := C.call input (_, c₁.world) (_, c₂.world) ⟨hservice, h.world⟩
      dsimp only
      revert hop
      generalize S₁.call input _ = r₁
      generalize S₂.call input _ = r₂
      rintro (⟨hfuture, hinst, hw⟩ | ⟨hinst, hw⟩)
      · exact ⟨rfl, table h.services (.some hinst) i, table h.futures (.some hfuture) k, hw⟩
      · exact ⟨rfl, table h.services (.some hinst) i, h.futures, hw⟩
  | poll k =>
    have hfuture := h.futures k
    unfold Callers.step
    dsimp only
    generalize c₁.futures k = x₁ at hfuture ⊢
    generalize c₂.futures k = x₂ at hfuture ⊢
    cases hfuture with
    | none => exact ⟨rfl, h⟩
    | some hfuture =>
      have hop := C.poll (_, c₁.world) (_, c₂.world) ⟨hfuture, h.world⟩
      dsimp only
      revert hop
      generalize S₁.poll _ = r₁
      generalize S₂.poll _ = r₂
      rintro (⟨rfl, hnext, hw⟩ | ⟨hnext, hw⟩)
      · exact ⟨rfl, h.services, table h.futures (.some hnext) k, hw⟩
      · exact ⟨rfl, h.services, table h.futures (.some hnext) k, hw⟩
  | drop k => exact ⟨rfl, h.services, table h.futures .none k, h.world⟩
  | elsewhere event => exact ⟨rfl, h.services, h.futures, hchange event _ _ h.world⟩

/-- **Callers of coupled services hear the same**, whatever they do and in whichever order. -/
theorem run (h : Coupled C c₁ c₂)
    (hchange : ∀ event w₁ w₂, W w₁ w₂ → W (change₁ event w₁) (change₂ event w₂))
    (ops : List (CallerOp ω Req)) :
    (Callers.run change₁ ops c₁).1 = (Callers.run change₂ ops c₂).1 ∧
      Coupled C (Callers.run change₁ ops c₁).2 (Callers.run change₂ ops c₂).2 := by
  induction ops generalizing c₁ c₂ with
  | nil => exact ⟨rfl, h⟩
  | cons op ops ih =>
    obtain ⟨hheard, hnext⟩ := h.step hchange op
    obtain ⟨hlater, hend⟩ := ih hnext
    exact ⟨congrArg₂ List.cons hheard hlater, hend⟩

end Coupled

end Callers

end Rust
