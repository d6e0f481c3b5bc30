import Mathlib.Logic.Function.Basic
import TowerRateLimiter.Common.Observe

/-!
# Readiness of Tower services

Tower's contract: `call` is made on a service value only after `poll_ready` returned `Ready(Ok)` on
that value, and each readiness is good for one call. Middleware that calls its inner service later
than it was called itself has to keep the value that was ready and hand it to the request.

`Service.tracked` gives every instance of a service a number of its own, a new one for each clone,
and writes down when it reports readiness and when it is called. A `Lease` says, for a service built
over a tracked one, which instance each of its values holds and what its requests can still do with
the instance reserved for them.
-/

namespace Rust

/-! ## The ledger -/

/-- What happens to the numbered instances of a service, and the requests that middleware answers in
its place. -/
inductive Deed where
  /-- `poll_ready` returned `Ready(Ok)` on the instance. -/
  | readied (id : ℕ)
  /-- The instance was called. -/
  | called (id : ℕ)
  /-- A middleware built a response of its own. -/
  | answered
deriving DecidableEq

/-- The number of instances made so far and what happened to them, oldest first. -/
structure Ledger where
  next : ℕ
  deeds : List Deed
deriving DecidableEq

/-- Write one more deed down. -/
def Ledger.note (deed : Deed) (l : Ledger) : Ledger := { l with deeds := l.deeds ++ [deed] }

/-- The instance reported readiness and has not been called since. -/
def ReadyIn (deeds : List Deed) (id : ℕ) : Prop :=
  ∃ before after, deeds = before ++ .readied id :: after ∧ .called id ∉ after

/-- Every call is made on an instance that is ready at that moment. -/
def Proper (deeds : List Deed) : Prop :=
  ∀ before id after, deeds = before ++ .called id :: after → ReadyIn before id

theorem readyIn_concat (deeds : List Deed) (id : ℕ) : ReadyIn (deeds ++ [.readied id]) id :=
  ⟨deeds, [], rfl, List.not_mem_nil⟩

/-- Readiness lasts until the instance is called. -/
theorem ReadyIn.append {deeds new : List Deed} {id : ℕ} (h : ReadyIn deeds id)
    (hnew : .called id ∉ new) : ReadyIn (deeds ++ new) id := by
  obtain ⟨before, after, rfl, hafter⟩ := h
  refine ⟨before, after ++ new, by simp, ?_⟩
  intro hmem
  rcases List.mem_append.mp hmem with hmem | hmem
  · exact hafter hmem
  · exact hnew hmem

theorem proper_nil : Proper [] := by
  intro before id after heq
  exact absurd heq (by simp)

/-- A deed other than a call of an instance that is not ready keeps the ledger proper. -/
theorem Proper.concat {deeds : List Deed} (h : Proper deeds) {d : Deed}
    (hd : ∀ id, d = .called id → ReadyIn deeds id) : Proper (deeds ++ [d]) := by
  intro before id after heq
  rcases concat_eq_split heq with ⟨rfl, rfl, rfl⟩ | ⟨rest, rfl⟩
  · exact hd id rfl
  · exact h before id rest rfl

/-- In a proper ledger two calls of one instance have a readiness report between them. -/
theorem Proper.readied_between {a b c : List Deed} {id : ℕ}
    (h : Proper (a ++ .called id :: b ++ .called id :: c)) : .readied id ∈ b := by
  obtain ⟨before, after, heq, hafter⟩ := h (a ++ .called id :: b) id c rfl
  -- the report that makes the second call ready cannot be followed by the first call
  rcases List.append_eq_append_iff.mp heq with ⟨m, rfl, hm⟩ | ⟨m, rfl, hm⟩
  · cases m with
    | nil =>
      rw [List.nil_append] at hm
      exact absurd (List.cons.inj hm).1 (by simp)
    | cons d m =>
      obtain ⟨-, rfl⟩ := List.cons.inj (show Deed.called id :: b = d :: (m ++ _) from hm)
      exact List.mem_append_right _ List.mem_cons_self
  · cases m with
    | nil =>
      rw [List.nil_append] at hm
      exact absurd (List.cons.inj hm).1 (by simp)
    | cons d m =>
      obtain ⟨-, rfl⟩ := List.cons.inj (show Deed.readied id :: after = d :: (m ++ _) from hm)
      exact absurd (List.mem_append_right _ List.mem_cons_self) hafter

/-! ## The life of a request -/

/-- What a request can still do with the instance reserved for it. -/
inductive Status where
  /-- It may call instance `reserved` or be turned away. -/
  | waiting (reserved : ℕ)
  /-- It has been turned away, and a middleware has yet to build the response. -/
  | refused
  /-- Neither. -/
  | spent
deriving DecidableEq

/-- How a request gets from one status to another, with what that writes down. -/
inductive Moves : Status → List Deed → Status → Prop where
  | stay (s : Status) : Moves s [] s
  | refuse (r : ℕ) : Moves (.waiting r) [] .refused
  | lapse (s : Status) : Moves s [] .spent
  | call (r : ℕ) : Moves (.waiting r) [.called r] .spent
  | answer (r : ℕ) : Moves (.waiting r) [.answered] .spent
  | build : Moves .refused [.answered] .spent

namespace Moves

variable {s s₁ s₂ : Status} {new new' : List Deed} {r : ℕ}

theorem of_spent (h : Moves .spent new s) : new = [] ∧ s = .spent := by
  cases h <;> exact ⟨rfl, rfl⟩

theorem of_refused (h : Moves .refused new s) :
    (new = [] ∧ (s = .refused ∨ s = .spent)) ∨ (new = [.answered] ∧ s = .spent) := by
  cases h with
  | stay => exact .inl ⟨rfl, .inl rfl⟩
  | lapse => exact .inl ⟨rfl, .inr rfl⟩
  | build => exact .inr ⟨rfl, rfl⟩

/-- Whatever a move from `waiting` leads to, it goes on from there. -/
theorem trans (h : Moves s new s₁) (h' : Moves s₁ new' s₂) : Moves s (new ++ new') s₂ := by
  cases h with
  | stay => exact h'
  | refuse r =>
    rcases h'.of_refused with ⟨rfl, rfl | rfl⟩ | ⟨rfl, rfl⟩
    · exact .refuse r
    · exact .lapse _
    · exact .answer r
  | lapse =>
    obtain ⟨rfl, rfl⟩ := h'.of_spent
    exact .lapse s
  | call r =>
    obtain ⟨rfl, rfl⟩ := h'.of_spent
    exact .call r
  | answer r =>
    obtain ⟨rfl, rfl⟩ := h'.of_spent
    exact .answer r
  | build =>
    obtain ⟨rfl, rfl⟩ := h'.of_spent
    exact .build

/-- A request calls nothing but its own instance. -/
theorem eq_of_called (h : Moves (.waiting r) new s) {id : ℕ} (hmem : .called id ∈ new) :
    id = r ∧ new = [.called r] := by
  cases h with
  | call => exact ⟨by simpa using hmem, rfl⟩
  | stay | refuse | lapse | answer => exact absurd hmem (by simp)

/-- A request that is still waiting has been so all along and has done nothing. -/
theorem eq_waiting (h : Moves s new (.waiting r)) : new = [] ∧ s = .waiting r := by
  cases h
  exact ⟨rfl, rfl⟩

/-- The deeds of a request keep the ledger proper if its instance is ready. -/
theorem proper (h : Moves s new s₁) {deeds : List Deed} (hproper : Proper deeds)
    (hready : ∀ r, s = .waiting r → ReadyIn deeds r) : Proper (deeds ++ new) := by
  cases h with
  | stay | refuse | lapse => rwa [List.append_nil]
  | call r =>
    refine hproper.concat ?_
    rintro id hid
    rw [← Deed.called.inj hid]
    exact hready r rfl
  | answer | build => exact hproper.concat (by simp)

end Moves

/-! ## Leases -/

/-- `new` was written down, and instances may have been made. -/
structure Ledger.Extends (l l' : Ledger) (new : List Deed) : Prop where
  deeds : l'.deeds = l.deeds ++ new
  next : l.next ≤ l'.next

namespace Ledger.Extends

variable {l l₁ l₂ : Ledger} {new new' : List Deed}

theorem refl (l : Ledger) : l.Extends l [] := ⟨by simp, le_rfl⟩

theorem trans (h : l.Extends l₁ new) (h' : l₁.Extends l₂ new') : l.Extends l₂ (new ++ new') :=
  ⟨by rw [h'.deeds, h.deeds, List.append_assoc], h.next.trans h'.next⟩

theorem drop (h : l.Extends l₁ new) : l₁.deeds.drop l.deeds.length = new := by
  rw [h.deeds, List.drop_left]

end Ledger.Extends

/-- The instance was made on the way from `l` to `l'`. -/
def Ledger.Made (l l' : Ledger) (id : ℕ) : Prop := l.next ≤ id ∧ id < l'.next

section Lease

variable {σ Req Res E : Type}

/-- A service built over numbered instances: the instance each value holds and the status of each
request, with what each operation does to them. `Sound` is what a value has to keep for that. -/
structure Lease (S : Service (σ × Ledger) Req Res E) where
  leaf : S.Inst → ℕ
  status : S.Future → Status
  Sound : S.Inst → Prop
  SoundFuture : S.Future → Prop
  clone_ok : ∀ {inst inst' w w' l l'}, Sound inst → S.clone inst (w, l) = .ok inst' (w', l') →
    Sound inst' ∧ l.Extends l' [] ∧ l.Made l' (leaf inst')
  clone_error : ∀ {inst p w w' l l'}, Sound inst → S.clone inst (w, l) = .error p (w', l') →
    l.Extends l' []
  pollReady_ok : ∀ {inst inst' r w w' l l'}, Sound inst →
    S.pollReady (inst, w, l) = .ok r (inst', w', l') → Sound inst' ∧ leaf inst' = leaf inst ∧
      (l.Extends l' [.readied (leaf inst)] ∨ l.Extends l' [] ∧ r ≠ .ready (.ok ()))
  pollReady_error : ∀ {inst inst' p w w' l l'}, Sound inst →
    S.pollReady (inst, w, l) = .error p (inst', w', l') →
      Sound inst' ∧ leaf inst' = leaf inst ∧ l.Extends l' []
  call_ok : ∀ {request inst inst' future w w' l l'}, Sound inst →
    S.call request (inst, w, l) = .ok future (inst', w', l') →
      Sound inst' ∧ SoundFuture future ∧ (leaf inst' = leaf inst ∨ l.Made l' (leaf inst')) ∧
        ∃ new, l.Extends l' new ∧ Moves (.waiting (leaf inst)) new (status future)
  call_error : ∀ {request inst inst' p w w' l l'}, Sound inst →
    S.call request (inst, w, l) = .error p (inst', w', l') →
      Sound inst' ∧ (leaf inst' = leaf inst ∨ l.Made l' (leaf inst')) ∧
        ∃ new, l.Extends l' new ∧ Moves (.waiting (leaf inst)) new .spent
  poll : ∀ {future future' w w' l l'}, SoundFuture future →
    final (S.poll (future, w, l)) = (future', w', l') →
      SoundFuture future' ∧ ∃ new, l.Extends l' new ∧ Moves (status future) new (status future')

/-- A call leaves another instance in place of the one it reserves. -/
def Lease.Reserves {S : Service (σ × Ledger) Req Res E} (L : Lease S) : Prop :=
  ∀ {request inst inst' future w w' l l'}, L.Sound inst →
    S.call request (inst, w, l) = .ok future (inst', w', l') → l.Made l' (L.leaf inst')

/-- What a readiness poll writes down. -/
def readiness (id : ℕ) : Option (Poll (Except E Unit)) → Ledger → Ledger
  | some (.ready (.ok _)), l => l.note (.readied id)
  | _, l => l

/-- A service with numbered instances. A clone gets a number of its own. -/
def Service.tracked (S : Service σ Req Res E) : Service (σ × Ledger) Req Res E where
  Inst := ℕ × S.Inst
  Future := S.Future
  clone inst := fun s =>
    match S.clone inst.2 s.1 with
    | .ok copy w => .ok (s.2.next, copy) (w, { s.2 with next := s.2.next + 1 })
    | .error p w => .error p (w, s.2)
  pollReady := fun s =>
    onPart (Prod.mk s.1.1) s.1.2 (loggedPart (readiness s.1.1) S.pollReady) s
  call request := fun s =>
    onPart (Prod.mk s.1.1) s.1.2
      (notedPart (fun _ => Ledger.note (.called s.1.1)) (S.call request)) s
  poll := notedPart unnoted S.poll

/-- A tracked service holds its own instances and calls them at once. -/
def Service.trackedLease (S : Service σ Req Res E) : Lease S.tracked where
  leaf := Prod.fst
  status _ := .spent
  Sound _ := True
  SoundFuture _ := True
  clone_ok := by
    rintro ⟨id, inst⟩ inst' w w' l l' - h
    simp only [Service.tracked] at h
    split at h
    · cases h
      exact ⟨trivial, ⟨by simp, Nat.le_succ _⟩, le_rfl, Nat.lt_succ_self _⟩
    · exact absurd h (by simp)
  clone_error := by
    rintro ⟨id, inst⟩ p w w' l l' - h
    simp only [Service.tracked] at h
    split at h
    · exact absurd h (by simp)
    · cases h
      exact .refl _
  pollReady_ok := by
    rintro ⟨id, inst⟩ inst' r w w' l l' - h
    simp only [Service.tracked, onPart] at h
    rcases loggedPart_cases (readiness id) S.pollReady inst w l with
      ⟨a, inst₁, w₁, heq⟩ | ⟨p, inst₁, w₁, heq⟩
    · rw [heq] at h
      cases h
      refine ⟨trivial, rfl, ?_⟩
      rcases r with _ | ⟨_ | _⟩
      · exact .inr ⟨.refl _, by simp⟩
      · exact .inr ⟨.refl _, by simp⟩
      · exact .inl ⟨rfl, le_rfl⟩
    · rw [heq] at h
      exact absurd h (by simp)
  pollReady_error := by
    rintro ⟨id, inst⟩ inst' p w w' l l' - h
    simp only [Service.tracked, onPart] at h
    rcases loggedPart_cases (readiness id) S.pollReady inst w l with
      ⟨a, inst₁, w₁, heq⟩ | ⟨p, inst₁, w₁, heq⟩
    · rw [heq] at h
      exact absurd h (by simp)
    · rw [heq] at h
      cases h
      exact ⟨trivial, rfl, .refl _⟩
  call_ok := by
    rintro request ⟨id, inst⟩ inst' future w w' l l' - h
    simp only [Service.tracked, onPart] at h
    rcases notedPart_cases (fun _ => Ledger.note (.called id)) (S.call request) inst w l with
      ⟨a, inst₁, w₁, heq⟩ | ⟨p, inst₁, w₁, heq⟩
    · rw [heq] at h
      cases h
      exact ⟨trivial, trivial, .inl rfl, [.called id], ⟨rfl, le_rfl⟩, .call id⟩
    · rw [heq] at h
      exact absurd h (by simp)
  call_error := by
    rintro request ⟨id, inst⟩ inst' p w w' l l' - h
    simp only [Service.tracked, onPart] at h
    rcases notedPart_cases (fun _ => Ledger.note (.called id)) (S.call request) inst w l with
      ⟨a, inst₁, w₁, heq⟩ | ⟨p, inst₁, w₁, heq⟩
    · rw [heq] at h
      exact absurd h (by simp)
    · rw [heq] at h
      cases h
      exact ⟨trivial, .inl rfl, [.called id], ⟨rfl, le_rfl⟩, .call id⟩
  poll := by
    intro future future' w w' l l' _ h
    refine ⟨trivial, [], ?_, .stay _⟩
    rcases notedPart_cases unnoted S.poll future w l with
      ⟨a, future₁, w₁, heq⟩ | ⟨p, future₁, w₁, heq⟩
    · have hpoll : S.tracked.poll (future, w, l) = _ := heq
      rw [hpoll] at h
      cases h
      exact .refl _
    · have hpoll : S.tracked.poll (future, w, l) = _ := heq
      rw [hpoll] at h
      cases h
      exact .refl _

end Lease

end Rust
