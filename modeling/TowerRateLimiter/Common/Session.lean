import TowerRateLimiter.Common.Readiness

/-!
# Callers that respect Tower's contract

A session is what any number of callers do with a service and its clones: clone a value, poll it for
readiness, call it once it was ready, and poll or drop the futures of their requests, in any order.
For a service with a `Lease` whose calls reserve the instance they were ready on, all the instances
in the hands of service values and requests are different ones (`Separate`), which is why no
operation spoils the readiness that another one counts on.

Main result: `Accounts.run`; `Accounts.honoured` reads off what it says about one request.
-/

namespace Rust

open Function (update)

variable {σ Req Res E : Type} {S : Service (σ × Ledger) Req Res E}

/-! ## Sessions -/

/-- A service value, and whether `poll_ready` returned `Ready(Ok)` on it since its last call. -/
structure Holder (S : Service (σ × Ledger) Req Res E) where
  service : S.Inst
  ready : Bool

/-- A request: the instance that was reserved for it, the length of the ledger when it was made, its
future unless that was dropped, and what its own operations wrote down. -/
structure Ticket (S : Service (σ × Ledger) Req Res E) where
  reserved : ℕ
  since : ℕ
  future : Option S.Future
  own : List Deed

/-- The service values and the requests of all callers, under names they choose, and the ledger. -/
structure Session (S : Service (σ × Ledger) Req Res E) where
  services : ℕ → Option (Holder S)
  requests : ℕ → Option (Ticket S)
  ledger : Ledger

/-- The operations of a caller. `clone` and `call` name the service value or the request they
make. -/
inductive SessionOp (Req : Type) where
  | clone (service copy : ℕ)
  | discard (service : ℕ)
  | pollReady (service : ℕ)
  | call (service request : ℕ) (input : Req)
  | poll (request : ℕ)
  | drop (request : ℕ)

namespace Session

/-- A session with one service value under the name 0, holding the first instance. -/
def start (service : S.Inst) : Session S where
  services := update (fun _ => none) 0 (some ⟨service, false⟩)
  requests := fun _ => none
  ledger := ⟨1, []⟩

/-- One operation, in the world it finds. It is `none` when the operation names nothing, or when it
is a call that breaks the contract. -/
def step (leaf : S.Inst → ℕ) (w : σ) (s : Session S) : SessionOp Req → Option (Session S)
  | .clone i k =>
      match s.services i, s.services k with
      | some h, none =>
          match S.clone h.service (w, s.ledger) with
          | .ok copy (_, l) =>
              some { s with services := update s.services k (some ⟨copy, false⟩), ledger := l }
          | .error _ (_, l) => some { s with ledger := l }
      | _, _ => none
  | .discard i =>
      match s.services i with
      | some _ => some { s with services := update s.services i none }
      | none => none
  | .pollReady i =>
      match s.services i with
      | some h =>
          match S.pollReady (h.service, w, s.ledger) with
          | .ok (.ready (.ok _)) (service, _, l) =>
              some { s with services := update s.services i (some ⟨service, true⟩), ledger := l }
          | .ok _ (service, _, l) | .error _ (service, _, l) =>
              some { s with services := update s.services i (some ⟨service, h.ready⟩), ledger := l }
      | none => none
  | .call i k input =>
      match s.services i, s.requests k with
      | some h, none =>
          if h.ready then
            match S.call input (h.service, w, s.ledger) with
            | .ok future (service, _, l) =>
                some { services := update s.services i (some ⟨service, false⟩)
                       requests := update s.requests k (some
                         { reserved := leaf h.service
                           since := s.ledger.deeds.length
                           future := some future
                           own := l.deeds.drop s.ledger.deeds.length })
                       ledger := l }
            | .error _ (service, _, l) =>
                some { s with services := update s.services i (some ⟨service, false⟩), ledger := l }
          else none
      | _, _ => none
  | .poll k =>
      match s.requests k with
      | some ⟨reserved, since, some future, own⟩ =>
          let (future, _, l) := final (S.poll (future, w, s.ledger))
          some { s with
            requests := update s.requests k (some
              ⟨reserved, since, some future, own ++ l.deeds.drop s.ledger.deeds.length⟩)
            ledger := l }
      | _ => none
  | .drop k =>
      match s.requests k with
      | some t => some { s with requests := update s.requests k (some { t with future := none }) }
      | none => none

/-- A sequence of operations, each in a world of its own. -/
def run (leaf : S.Inst → ℕ) : List (SessionOp Req × σ) → Session S → Option (Session S)
  | [], s => some s
  | (op, w) :: ops, s => (s.step leaf w op).bind (run leaf ops)

/-- The instance a service value or a request has in its hands. -/
def owner (leaf : S.Inst → ℕ) (s : Session S) : ℕ ⊕ ℕ → Option ℕ
  | .inl i => (s.services i).map (leaf ·.service)
  | .inr k => (s.requests k).map (·.reserved)

end Session

/-! ## Separate instances -/

/-- Different owners own different instances, all of them among the first `next`. -/
structure Separate {α : Type} (next : ℕ) (own : α → Option ℕ) : Prop where
  below : ∀ a id, own a = some id → id < next
  apart : ∀ a b id, own a = some id → own b = some id → a = b

namespace Separate

variable {α : Type} {own : α → Option ℕ} {n n' id : ℕ} {a b : α}

theorem mono (h : Separate n own) (hn : n ≤ n') : Separate n' own :=
  ⟨fun a id ha => lt_of_lt_of_le (h.below a id ha) hn, h.apart⟩

variable [DecidableEq α]

/-- An owner gives its instance up. -/
theorem release (h : Separate n own) (a : α) : Separate n (update own a none) := by
  have hown : ∀ b id, update own a none b = some id → own b = some id := by
    intro b id hb
    rw [Function.update_apply] at hb
    split at hb
    · exact absurd hb (by simp)
    · exact hb
  exact ⟨fun b id hb => h.below b id (hown b id hb),
    fun b c id hb hc => h.apart b c id (hown b id hb) (hown c id hc)⟩

/-- An owner gets an instance that nobody else owns. -/
theorem acquire (h : Separate n own) (a : α) (hid : id < n) (hfree : ∀ b, own b = some id → b = a) :
    Separate n (update own a (some id)) := by
  have hown : ∀ b j, update own a (some id) b = some j → own b = some j ∨ (b = a ∧ j = id) := by
    intro b j hb
    rw [Function.update_apply] at hb
    split at hb
    · exact .inr ⟨by assumption, (Option.some.inj hb).symm⟩
    · exact .inl hb
  refine ⟨?_, ?_⟩
  · intro b j hb
    rcases hown b j hb with hb | ⟨-, rfl⟩
    · exact h.below b j hb
    · exact hid
  · intro b c j hb hc
    rcases hown b j hb with hb' | ⟨rfl, rfl⟩
    · rcases hown c j hc with hc' | ⟨rfl, rfl⟩
      · exact h.apart b c j hb' hc'
      · exact hfree b hb'
    · rcases hown c _ hc with hc' | ⟨rfl, -⟩
      · exact (hfree c hc').symm
      · rfl

/-- An owner gets an instance that was just made. -/
theorem fresh (h : Separate n own) (a : α) (hn : n ≤ n') (hle : n ≤ id) (hlt : id < n') :
    Separate n' (update own a (some id)) := by
  refine (h.mono hn).acquire a hlt ?_
  intro b hb
  have hbelow := h.below b id hb
  omega

/-- An owner hands its instance over to another one. -/
theorem hand (h : Separate n own) (ha : own a = some id) (b : α) :
    Separate n (update (update own a none) b (some id)) := by
  refine (h.release a).acquire b (h.below a id ha) ?_
  intro c hc
  rw [Function.update_apply] at hc
  split at hc
  · exact absurd hc (by simp)
  · rename_i hne
    exact absurd (h.apart c a id hc ha) hne

end Separate

/-! ## Accounts -/

/-- The status of a request; a dropped one does nothing more. -/
def Ticket.status (L : Lease S) (t : Ticket S) : Status :=
  match t.future with
  | some future => L.status future
  | none => .spent

/-- What holds of a service value. -/
structure Holder.Accounted (L : Lease S) (l : Ledger) (h : Holder S) : Prop where
  sound : L.Sound h.service
  ready : h.ready = true → ReadyIn l.deeds (L.leaf h.service)

/-- What holds of a request: it got to its status by the deeds that are its own, the calls of its
instance since it was made are among these, and while it waits its instance is ready. -/
structure Ticket.Accounted (L : Lease S) (l : Ledger) (t : Ticket S) : Prop where
  sound : ∀ future, t.future = some future → L.SoundFuture future
  moves : Moves (.waiting t.reserved) t.own (t.status L)
  ready : t.status L = .waiting t.reserved → ReadyIn l.deeds t.reserved
  since : t.since ≤ l.deeds.length
  calls : (l.deeds.drop t.since).count (.called t.reserved) = t.own.count (.called t.reserved)

/-- What holds in every session. -/
structure Accounts (L : Lease S) (s : Session S) : Prop where
  proper : Proper s.ledger.deeds
  service : ∀ i h, s.services i = some h → h.Accounted L s.ledger
  request : ∀ k t, s.requests k = some t → t.Accounted L s.ledger
  separate : Separate s.ledger.next (s.owner L.leaf)

section Frame

variable {L : Lease S} {l l' : Ledger} {new : List Deed}

/-- A service value is not affected by what others do. -/
theorem Holder.Accounted.append {h : Holder S} (hacc : h.Accounted L l) (hext : l.Extends l' new)
    (hnew : .called (L.leaf h.service) ∉ new) : h.Accounted L l' where
  sound := hacc.sound
  ready hready := by
    rw [hext.deeds]
    exact (hacc.ready hready).append hnew

/-- Neither is a request. -/
theorem Ticket.Accounted.append {t : Ticket S} (hacc : t.Accounted L l) (hext : l.Extends l' new)
    (hnew : .called t.reserved ∉ new) : t.Accounted L l' where
  sound := hacc.sound
  moves := hacc.moves
  ready hwaiting := by
    rw [hext.deeds]
    exact (hacc.ready hwaiting).append hnew
  since := by
    rw [hext.deeds, List.length_append]
    exact Nat.le_add_right_of_le hacc.since
  calls := by
    rw [hext.deeds, List.drop_append_of_le_length hacc.since, List.count_append,
      List.count_eq_zero.mpr hnew, Nat.add_zero, hacc.calls]

/-- A waiting request waits for its own instance, which is ready. -/
theorem Ticket.Accounted.readyIn {t : Ticket S} (hacc : t.Accounted L l) {r : ℕ}
    (hstatus : t.status L = .waiting r) : ReadyIn l.deeds r := by
  have hmoves := hacc.moves
  rw [hstatus] at hmoves
  have hr := Status.waiting.inj hmoves.eq_waiting.2
  rw [← hr]
  exact hacc.ready (hr ▸ hstatus)

/-- A request that was just made. -/
theorem Ticket.accounted_of_call {future : S.Future} {reserved : ℕ} (hext : l.Extends l' new)
    (hsound : L.SoundFuture future) (hmoves : Moves (.waiting reserved) new (L.status future))
    (hready : ReadyIn l.deeds reserved) :
    (⟨reserved, l.deeds.length, some future, l'.deeds.drop l.deeds.length⟩ :
      Ticket S).Accounted L l' where
  sound := by
    intro future' heq
    rwa [← Option.some.inj heq]
  moves := by
    rw [hext.drop]
    exact hmoves
  ready := by
    intro hwaiting
    have hstatus : L.status future = .waiting reserved := hwaiting
    rw [hstatus] at hmoves
    rwa [hext.deeds, hmoves.eq_waiting.1, List.append_nil]
  since := by
    rw [hext.deeds, List.length_append]
    exact Nat.le_add_right _ _
  calls := rfl

/-- A request that was polled. -/
theorem Ticket.accounted_of_poll {future future' : S.Future} {reserved since : ℕ}
    {own : List Deed} (hacc : (⟨reserved, since, some future, own⟩ : Ticket S).Accounted L l)
    (hext : l.Extends l' new) (hsound : L.SoundFuture future')
    (hmoves : Moves (L.status future) new (L.status future')) :
    (⟨reserved, since, some future', own ++ l'.deeds.drop l.deeds.length⟩ :
      Ticket S).Accounted L l' where
  sound := by
    intro future'' heq
    rwa [← Option.some.inj heq]
  moves := by
    rw [hext.drop]
    exact hacc.moves.trans hmoves
  ready := by
    intro hwaiting
    have hstatus : L.status future' = .waiting reserved := hwaiting
    rw [hstatus] at hmoves
    obtain ⟨rfl, hbefore⟩ := hmoves.eq_waiting
    rw [hext.deeds, List.append_nil]
    exact hacc.ready hbefore
  since := by
    rw [hext.deeds, List.length_append]
    exact Nat.le_add_right_of_le hacc.since
  calls := by
    rw [hext.drop, hext.deeds, List.drop_append_of_le_length hacc.since, List.count_append,
      List.count_append, hacc.calls]

end Frame

/-! ## One operation -/

/-- What a table holds after one entry was set. -/
theorem update_eq_some {α : Type} {f : ℕ → Option α} {k j : ℕ} {a b : α}
    (h : update f k (some a) j = some b) : (j = k ∧ a = b) ∨ (j ≠ k ∧ f j = some b) := by
  rw [Function.update_apply] at h
  split at h
  · exact .inl ⟨by assumption, Option.some.inj h⟩
  · exact .inr ⟨by assumption, h⟩

namespace Accounts

variable {L : Lease S} {s s' : Session S} {w : σ}

/-- What is left to show when the new deeds call at most the instance of one owner, the actor:
everything about the actor, and that the instances are still separate. -/
theorem advance (h : Accounts L s) (actor : Option (ℕ ⊕ ℕ)) {new : List Deed}
    (hext : s.ledger.Extends s'.ledger new) (hproper : Proper s'.ledger.deeds)
    (hactor : ∀ id, .called id ∈ new → ∃ a, actor = some a ∧ s.owner L.leaf a = some id)
    (hservice : ∀ i x, s'.services i = some x →
      (s.services i = some x ∧ actor ≠ some (.inl i)) ∨ x.Accounted L s'.ledger)
    (hrequest : ∀ k t, s'.requests k = some t →
      (s.requests k = some t ∧ actor ≠ some (.inr k)) ∨ t.Accounted L s'.ledger)
    (hseparate : Separate s'.ledger.next (s'.owner L.leaf)) : Accounts L s' where
  proper := hproper
  service := by
    intro i x hx
    rcases hservice i x hx with ⟨hold, hne⟩ | hacc
    · refine (h.service i x hold).append hext ?_
      intro hmem
      obtain ⟨a, rfl, ha⟩ := hactor _ hmem
      have howner : s.owner L.leaf (.inl i) = some (L.leaf x.service) := by
        simp [Session.owner, hold]
      exact hne (congrArg some (h.separate.apart _ _ _ ha howner))
    · exact hacc
  request := by
    intro k t ht
    rcases hrequest k t ht with ⟨hold, hne⟩ | hacc
    · refine (h.request k t hold).append hext ?_
      intro hmem
      obtain ⟨a, rfl, ha⟩ := hactor _ hmem
      have howner : s.owner L.leaf (.inr k) = some t.reserved := by
        simp [Session.owner, hold]
      exact hne (congrArg some (h.separate.apart _ _ _ ha howner))
    · exact hacc
  separate := hseparate

/-- The owners after a change of one service value. -/
theorem owner_update_services (leaf : S.Inst → ℕ) (s : Session S) (i : ℕ) (x : Option (Holder S))
    (l : Ledger) :
    ({ s with services := update s.services i x, ledger := l } : Session S).owner leaf =
      update (s.owner leaf) (.inl i) (x.map (leaf ·.service)) := by
  funext a
  rcases a with j | k
  · by_cases hj : j = i
    · subst hj
      simp [Session.owner]
    · simp [Session.owner, hj]
  · simp [Session.owner]

/-- The owners after a change of one request. -/
theorem owner_update_requests (leaf : S.Inst → ℕ) (s : Session S) (k : ℕ) (t : Option (Ticket S))
    (l : Ledger) :
    ({ s with requests := update s.requests k t, ledger := l } : Session S).owner leaf =
      update (s.owner leaf) (.inr k) (t.map (·.reserved)) := by
  funext a
  rcases a with j | j
  · simp [Session.owner]
  · by_cases hj : j = k
    · subst hj
      simp [Session.owner]
    · simp [Session.owner, hj]

/-- The owners after a call: the instance is handed over and another one takes its place. -/
theorem owner_call (leaf : S.Inst → ℕ) (s : Session S) (i k : ℕ) (x : Holder S) (t : Ticket S)
    (l : Ledger) :
    ({ services := update s.services i (some x), requests := update s.requests k (some t),
       ledger := l } : Session S).owner leaf =
      update (update (update (s.owner leaf) (.inl i) none) (.inr k) (some t.reserved)) (.inl i)
        (some (leaf x.service)) := by
  have hne : (Sum.inr k : ℕ ⊕ ℕ) ≠ .inl i := by simp
  rw [owner_update_requests leaf { s with services := update s.services i (some x) } k (some t) l,
    owner_update_services leaf s i (some x) s.ledger, Function.update_comm hne,
    Function.update_idem]
  rfl

/-- A change of one service value, by deeds that call at most the instance it held. -/
theorem advance_service (h : Accounts L s) {i : ℕ} {x : Holder S} {l : Ledger} {new : List Deed}
    (hext : s.ledger.Extends l new) (hproper : Proper l.deeds)
    (hactor : ∀ id, .called id ∈ new → s.owner L.leaf (.inl i) = some id)
    (hacc : x.Accounted L l)
    (hseparate : Separate l.next (update (s.owner L.leaf) (.inl i) (some (L.leaf x.service)))) :
    Accounts L { s with services := update s.services i (some x), ledger := l } := by
  refine h.advance (some (.inl i)) hext hproper (fun id hid => ⟨_, rfl, hactor id hid⟩) ?_
    (fun _ _ ht => .inl ⟨ht, by simp⟩) ?_
  · intro j y hy
    rcases update_eq_some hy with ⟨rfl, rfl⟩ | ⟨hj, hold⟩
    · exact .inr hacc
    · exact .inl ⟨hold, by simpa using Ne.symm hj⟩
  · rw [owner_update_services]
    exact hseparate

theorem step_clone (h : Accounts L s) {i k : ℕ}
    (hstep : s.step L.leaf w (.clone i k) = some s') : Accounts L s' := by
  simp only [Session.step] at hstep
  split at hstep
  · rename_i x hx _
    have hsound := (h.service i x hx).sound
    rcases heq : S.clone x.service (w, s.ledger) with ⟨copy, w', l⟩ | ⟨p, w', l⟩
    · rw [heq] at hstep
      obtain rfl := Option.some.inj hstep
      obtain ⟨hcopy, hext, hmade⟩ := L.clone_ok hsound heq
      refine h.advance_service hext ?_ (by simp) ⟨hcopy, by simp⟩
        (h.separate.fresh _ hext.next hmade.1 hmade.2)
      simpa only [hext.deeds, List.append_nil] using h.proper
    · rw [heq] at hstep
      obtain rfl := Option.some.inj hstep
      have hext := L.clone_error hsound heq
      refine h.advance none hext ?_ (by simp) (fun _ _ hy => .inl ⟨hy, by simp⟩)
        (fun _ _ ht => .inl ⟨ht, by simp⟩) (h.separate.mono hext.next)
      simpa only [hext.deeds, List.append_nil] using h.proper
  · exact absurd hstep (by simp)

theorem step_discard (h : Accounts L s) {i : ℕ}
    (hstep : s.step L.leaf w (.discard i) = some s') : Accounts L s' := by
  simp only [Session.step] at hstep
  split at hstep
  · obtain rfl := Option.some.inj hstep
    refine h.advance none (.refl _) h.proper (by simp) ?_ (fun _ _ ht => .inl ⟨ht, by simp⟩) ?_
    · intro j y hy
      by_cases hj : j = i
      · subst hj
        exact absurd hy (by simp)
      · exact .inl ⟨by simpa [hj] using hy, by simp⟩
    · rw [owner_update_services]
      exact h.separate.release _
  · exact absurd hstep (by simp)

/-- A service value that reports readiness is ready, and one that does not is as it was. -/
theorem step_pollReady (h : Accounts L s) {i : ℕ}
    (hstep : s.step L.leaf w (.pollReady i) = some s') : Accounts L s' := by
  simp only [Session.step] at hstep
  split at hstep
  · rename_i x hx
    have hacc := h.service i x hx
    have howner : s.owner L.leaf (.inl i) = some (L.leaf x.service) := by simp [Session.owner, hx]
    -- a poll that writes nothing down keeps the value ready if it was
    have hquiet : ∀ {service : S.Inst} {l : Ledger}, L.Sound service →
        L.leaf service = L.leaf x.service → s.ledger.Extends l [] →
        Accounts L
          { s with services := update s.services i (some ⟨service, x.ready⟩), ledger := l } := by
      intro service l hsound hleaf hext
      refine h.advance_service hext ?_ (by simp) ⟨hsound, ?_⟩ ?_
      · simpa only [hext.deeds, List.append_nil] using h.proper
      · intro hready
        rw [hext.deeds, List.append_nil, hleaf]
        exact hacc.ready hready
      · rw [hleaf, ← howner, Function.update_eq_self]
        exact h.separate.mono hext.next
    have hreadied : ∀ {service : S.Inst} {l : Ledger} (b : Bool), L.Sound service →
        L.leaf service = L.leaf x.service →
        s.ledger.Extends l [.readied (L.leaf x.service)] →
        Accounts L { s with services := update s.services i (some ⟨service, b⟩), ledger := l } := by
      intro service l b hsound hleaf hext
      refine h.advance_service hext ?_ (by simp) ⟨hsound, ?_⟩ ?_
      · rw [hext.deeds]
        exact h.proper.concat (by simp)
      · intro _
        rw [hext.deeds, hleaf]
        exact readyIn_concat _ _
      · rw [hleaf, ← howner, Function.update_eq_self]
        exact h.separate.mono hext.next
    rcases heq : S.pollReady (x.service, w, s.ledger) with ⟨r, service, w', l⟩ | ⟨p, service, w', l⟩
    · rw [heq] at hstep
      obtain ⟨hsound, hleaf, hdeeds⟩ := L.pollReady_ok hacc.sound heq
      rcases hdeeds with hext | ⟨hext, hr⟩
      · rcases r with _ | ⟨_ | _⟩
        · obtain rfl := Option.some.inj hstep
          exact hreadied _ hsound hleaf hext
        · obtain rfl := Option.some.inj hstep
          exact hreadied _ hsound hleaf hext
        · obtain rfl := Option.some.inj hstep
          exact hreadied _ hsound hleaf hext
      · rcases r with _ | ⟨_ | _⟩
        · obtain rfl := Option.some.inj hstep
          exact hquiet hsound hleaf hext
        · obtain rfl := Option.some.inj hstep
          exact hquiet hsound hleaf hext
        · exact absurd rfl hr
    · rw [heq] at hstep
      obtain rfl := Option.some.inj hstep
      obtain ⟨hsound, hleaf, hext⟩ := L.pollReady_error hacc.sound heq
      exact hquiet hsound hleaf hext
  · exact absurd hstep (by simp)

/-- A call hands the instance of the service value over to the request. -/
theorem step_call (hreserves : L.Reserves) (h : Accounts L s) {i k : ℕ} {input : Req}
    (hstep : s.step L.leaf w (.call i k input) = some s') : Accounts L s' := by
  simp only [Session.step] at hstep
  split at hstep
  · rename_i x hx hk
    split at hstep
    · rename_i hready
      have hacc := h.service i x hx
      have howner : s.owner L.leaf (.inl i) = some (L.leaf x.service) := by
        simp [Session.owner, hx]
      have hproper : ∀ {l : Ledger} {new : List Deed} {st : Status}, s.ledger.Extends l new →
          Moves (.waiting (L.leaf x.service)) new st → Proper l.deeds := by
        intro l new st hext hmoves
        rw [hext.deeds]
        refine hmoves.proper h.proper ?_
        intro r hr
        rw [← Status.waiting.inj hr]
        exact hacc.ready hready
      rcases heq : S.call input (x.service, w, s.ledger) with
        ⟨future, service, w', l⟩ | ⟨p, service, w', l⟩
      · rw [heq] at hstep
        obtain rfl := Option.some.inj hstep
        obtain ⟨hsound, hfuture, -, new, hext, hmoves⟩ := L.call_ok hacc.sound heq
        have hmade := hreserves hacc.sound heq
        refine h.advance (some (.inl i)) hext (hproper hext hmoves) ?_ ?_ ?_ ?_
        · intro id hid
          exact ⟨_, rfl, by rw [howner, (hmoves.eq_of_called hid).1]⟩
        · intro j y hy
          rcases update_eq_some hy with ⟨rfl, rfl⟩ | ⟨hj, hold⟩
          · exact .inr ⟨hsound, by simp⟩
          · exact .inl ⟨hold, by simpa using Ne.symm hj⟩
        · intro j t ht
          rcases update_eq_some ht with ⟨rfl, rfl⟩ | ⟨-, hold⟩
          · exact .inr (Ticket.accounted_of_call hext hfuture hmoves (hacc.ready hready))
          · exact .inl ⟨hold, by simp⟩
        · rw [owner_call]
          have hhanded := h.separate.hand howner (.inr k)
          exact hhanded.fresh (.inl i) hext.next hmade.1 hmade.2
      · rw [heq] at hstep
        obtain rfl := Option.some.inj hstep
        obtain ⟨hsound, hleaf, new, hext, hmoves⟩ := L.call_error hacc.sound heq
        refine h.advance_service hext (hproper hext hmoves) ?_ ⟨hsound, by simp⟩ ?_
        · intro id hid
          rw [howner, (hmoves.eq_of_called hid).1]
        · rcases hleaf with hleaf | hmade
          · rw [hleaf, ← howner, Function.update_eq_self]
            exact h.separate.mono hext.next
          · exact h.separate.fresh _ hext.next hmade.1 hmade.2
    · exact absurd hstep (by simp)
  · exact absurd hstep (by simp)

/-- A poll continues the request from the status it had. -/
theorem step_poll (h : Accounts L s) {k : ℕ}
    (hstep : s.step L.leaf w (.poll k) = some s') : Accounts L s' := by
  simp only [Session.step] at hstep
  split at hstep
  · rename_i reserved since future own ht
    have hacc := h.request k _ ht
    rcases heq : final (S.poll (future, w, s.ledger)) with ⟨future', w', l⟩
    rw [heq] at hstep
    obtain rfl := Option.some.inj hstep
    obtain ⟨hsound, new, hext, hmoves⟩ := L.poll (hacc.sound future rfl) heq
    have htrans : Moves (.waiting reserved) (own ++ new) (L.status future') :=
      hacc.moves.trans hmoves
    refine h.advance (some (.inr k)) hext ?_ ?_ (fun _ _ hy => .inl ⟨hy, by simp⟩) ?_ ?_
    · rw [hext.deeds]
      exact hmoves.proper h.proper fun r hr => hacc.readyIn hr
    · intro id hid
      refine ⟨_, rfl, ?_⟩
      simp [Session.owner, ht, (htrans.eq_of_called (List.mem_append_right _ hid)).1]
    · intro j t ht'
      rcases update_eq_some ht' with ⟨rfl, rfl⟩ | ⟨hj, hold⟩
      · exact .inr (Ticket.accounted_of_poll hacc hext hsound hmoves)
      · exact .inl ⟨hold, by simpa using Ne.symm hj⟩
    · rw [owner_update_requests]
      have howner : s.owner L.leaf (.inr k) = some reserved := by simp [Session.owner, ht]
      rw [Option.map_some, ← howner, Function.update_eq_self]
      exact h.separate.mono hext.next
  · exact absurd hstep (by simp)

/-- A dropped request keeps its instance from everybody else. -/
theorem step_drop (h : Accounts L s) {k : ℕ}
    (hstep : s.step L.leaf w (.drop k) = some s') : Accounts L s' := by
  simp only [Session.step] at hstep
  split at hstep
  · rename_i t ht
    have hacc := h.request k t ht
    obtain rfl := Option.some.inj hstep
    refine h.advance none (.refl _) h.proper (by simp) (fun _ _ hy => .inl ⟨hy, by simp⟩) ?_ ?_
    · intro j t' ht'
      rcases update_eq_some ht' with ⟨rfl, rfl⟩ | ⟨-, hold⟩
      · refine .inr ⟨by simp, ?_, by simp [Ticket.status], hacc.since, hacc.calls⟩
        have hmoves := hacc.moves.trans (.lapse _)
        rwa [List.append_nil] at hmoves
      · exact .inl ⟨hold, by simp⟩
    · rw [owner_update_requests]
      have howner : s.owner L.leaf (.inr k) = some t.reserved := by simp [Session.owner, ht]
      rw [Option.map_some, ← howner, Function.update_eq_self]
      exact h.separate
  · exact absurd hstep (by simp)

/-- Every operation that the contract allows keeps the accounts. -/
theorem step (hreserves : L.Reserves) (h : Accounts L s) {op : SessionOp Req}
    (hstep : s.step L.leaf w op = some s') : Accounts L s' := by
  cases op with
  | clone i k => exact h.step_clone hstep
  | discard i => exact h.step_discard hstep
  | pollReady i => exact h.step_pollReady hstep
  | call i k input => exact h.step_call hreserves hstep
  | poll k => exact h.step_poll hstep
  | drop k => exact h.step_drop hstep

/-! ## Whole sessions -/

/-- A service value over the first instance, and nothing else. -/
theorem start (L : Lease S) {service : S.Inst} (hsound : L.Sound service)
    (hleaf : L.leaf service = 0) : Accounts L (Session.start service) where
  proper := proper_nil
  service := by
    intro i x hx
    simp only [Session.start] at hx
    rcases update_eq_some hx with ⟨-, rfl⟩ | ⟨-, hold⟩
    · exact ⟨hsound, by simp⟩
    · exact absurd hold (by simp)
  request := by
    intro k t ht
    exact absurd ht (by simp [Session.start])
  separate := by
    have hnone : Separate 0 (fun _ : ℕ ⊕ ℕ => none) :=
      ⟨fun _ _ h => absurd h (by simp), fun _ _ _ h => absurd h (by simp)⟩
    have hstart := hnone.fresh (.inl 0) (Nat.zero_le 1) (Nat.zero_le 0) Nat.zero_lt_one
    have howner : (Session.start service).owner L.leaf =
        update (fun _ => none) (.inl 0) (some 0) := by
      funext a
      rcases a with i | k
      · by_cases hi : i = 0
        · simp [Session.owner, Session.start, hi, hleaf]
        · simp [Session.owner, Session.start, hi]
      · simp [Session.owner, Session.start]
    rw [howner]
    exact hstart

/-- The accounts are kept along every session. -/
theorem run (hreserves : L.Reserves) (h : Accounts L s) {ops : List (SessionOp Req × σ)}
    (hrun : Session.run L.leaf ops s = some s') : Accounts L s' := by
  induction ops generalizing s with
  | nil =>
    obtain rfl := Option.some.inj hrun
    exact h
  | cons op ops ih =>
    obtain ⟨s₁, hstep, hrest⟩ := Option.bind_eq_some_iff.mp hrun
    exact ih (h.step hreserves hstep) hrest

end Accounts

/-- What a caller can count on for one request: it calls only the instance reserved for it and that
at most once, nobody else calls that instance, and if a middleware answered the request, or if it
was dropped before the call, that instance is never called. -/
structure Ticket.Honoured (deeds : List Deed) (t : Ticket S) : Prop where
  own : ∀ id, .called id ∈ t.own → id = t.reserved
  once : t.own.count (.called t.reserved) ≤ 1
  exclusive : (deeds.drop t.since).count (.called t.reserved) = t.own.count (.called t.reserved)
  answered : .answered ∈ t.own → .called t.reserved ∉ deeds.drop t.since
  cancelled : t.future = none → .called t.reserved ∉ t.own →
    .called t.reserved ∉ deeds.drop t.since

theorem Accounts.honoured {L : Lease S} {s : Session S} (h : Accounts L s) {k : ℕ} {t : Ticket S}
    (ht : s.requests k = some t) : t.Honoured s.ledger.deeds := by
  have hacc := h.request k t ht
  have hnever : .called t.reserved ∉ t.own → .called t.reserved ∉ s.ledger.deeds.drop t.since := by
    intro hnot
    rw [← List.count_eq_zero, hacc.calls, List.count_eq_zero]
    exact hnot
  refine ⟨fun id hid => (hacc.moves.eq_of_called hid).1, ?_, hacc.calls, ?_, fun _ => hnever⟩
  · by_cases hcalled : .called t.reserved ∈ t.own
    · rw [(hacc.moves.eq_of_called hcalled).2]
      simp
    · rw [List.count_eq_zero.mpr hcalled]
      exact Nat.zero_le 1
  · intro hanswered
    refine hnever ?_
    intro hcalled
    rw [(hacc.moves.eq_of_called hcalled).2] at hanswered
    exact absurd hanswered (by simp)

end Rust
