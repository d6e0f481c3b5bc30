import TowerRateLimiter.Common.Task

/-!
# Components under observation

A component runs in a world `σ`. To say something about which calls a program makes, whatever its
components do, a record `L` is kept next to the world: `logged` runs a call on `σ` and writes to the
record how the call ended. The component itself never sees the record.

`noted` writes down only whether it panicked, and `Invocation` is what there is to record of it.
`final` is the state a call leaves behind, whether it returned or unwound, which is what a caller
that catches the panic goes on with.
-/

namespace Rust

variable {σ L F α : Type}

/-- The state a call leaves behind. -/
def final : EStateM.Result Panic σ α → σ
  | .ok _ s => s
  | .error _ s => s

@[simp] theorem final_ok (a : α) (s : σ) : final (.ok a s : EStateM.Result Panic σ α) = s := rfl

@[simp] theorem final_error (p : Panic) (s : σ) :
    final (.error p s : EStateM.Result Panic σ α) = s := rfl

/-- An entry of a record with one entry more is the last one or an earlier one. -/
theorem concat_eq_split {record before after : List α} {last entry : α}
    (h : record ++ [last] = before ++ entry :: after) :
    (record = before ∧ last = entry ∧ after = []) ∨ ∃ rest, record = before ++ entry :: rest := by
  rcases List.eq_nil_or_concat after with rfl | ⟨rest, last', rfl⟩
  · obtain ⟨hrecord, hlast⟩ := List.append_inj' h rfl
    exact .inl ⟨hrecord, List.singleton_inj.mp hlast, rfl⟩
  · have hsplit : record ++ [last] = (before ++ entry :: rest) ++ [last'] := by simpa using h
    exact .inr ⟨rest, (List.append_inj' hsplit rfl).1⟩

/-! ## Recording calls -/

/-- Run a call on the world and note in the record what it returned, `none` for a panic. -/
def logged (note : Option α → L → L) (op : Eff σ α) : Eff (σ × L) α := fun s =>
  match op s.1 with
  | .ok a w => .ok a (w, note (some a) s.2)
  | .error p w => .error p (w, note none s.2)

/-- The same for an operation on a value `F`. -/
def loggedPart (note : Option α → L → L) (op : Eff (F × σ) α) : Eff (F × σ × L) α := fun s =>
  match op (s.1, s.2.1) with
  | .ok a t => .ok a (t.1, t.2, note (some a) s.2.2)
  | .error p t => .error p (t.1, t.2, note none s.2.2)

/-- How a recorded call ends, as far as the record shows. -/
theorem logged_cases (note : Option α → L → L) (op : Eff σ α) (w : σ) (l : L) :
    (∃ a w', logged note op (w, l) = .ok a (w', note (some a) l)) ∨
      ∃ p w', logged note op (w, l) = .error p (w', note none l) := by
  unfold logged
  rcases op w with ⟨a, w'⟩ | ⟨p, w'⟩
  · exact .inl ⟨a, w', rfl⟩
  · exact .inr ⟨p, w', rfl⟩

theorem loggedPart_cases (note : Option α → L → L) (op : Eff (F × σ) α) (f : F) (w : σ) (l : L) :
    (∃ a f' w', loggedPart note op (f, w, l) = .ok a (f', w', note (some a) l)) ∨
      ∃ p f' w', loggedPart note op (f, w, l) = .error p (f', w', note none l) := by
  unfold loggedPart
  rcases op (f, w) with ⟨a, f', w'⟩ | ⟨p, f', w'⟩
  · exact .inl ⟨a, f', w', rfl⟩
  · exact .inr ⟨p, f', w', rfl⟩

/-- Run a call on the world and note in the record whether it panicked. -/
def noted (note : Bool → L → L) : Eff σ α → Eff (σ × L) α :=
  logged fun outcome => note outcome.isNone

/-- The same for an operation on a value `F`. -/
def notedPart (note : Bool → L → L) : Eff (F × σ) α → Eff (F × σ × L) α :=
  loggedPart fun outcome => note outcome.isNone

theorem noted_cases (note : Bool → L → L) (op : Eff σ α) (w : σ) (l : L) :
    (∃ a w', noted note op (w, l) = .ok a (w', note false l)) ∨
      ∃ p w', noted note op (w, l) = .error p (w', note true l) :=
  logged_cases _ op w l

theorem notedPart_cases (note : Bool → L → L) (op : Eff (F × σ) α) (f : F) (w : σ) (l : L) :
    (∃ a f' w', notedPart note op (f, w, l) = .ok a (f', w', note false l)) ∨
      ∃ p f' w', notedPart note op (f, w, l) = .error p (f', w', note true l) :=
  loggedPart_cases _ op f w l

/-- A note that leaves no trace. -/
def unnoted : Bool → L → L := fun _ l => l

theorem unnoted_cases (op : Eff σ α) (w : σ) (l : L) :
    (∃ a w', noted unnoted op (w, l) = .ok a (w', l)) ∨
      ∃ p w', noted unnoted op (w, l) = .error p (w', l) :=
  noted_cases unnoted op w l

/-! ## Records of invocations -/

/-- An invocation of a component, and whether it panicked. -/
structure Invocation (ω : Type) where
  component : ω
  panicked : Bool
deriving DecidableEq

section Invocations

variable {ω : Type}

/-- The note that a component was invoked. -/
def entered (component : ω) (panicked : Bool) (record : List (Invocation ω)) :
    List (Invocation ω) :=
  record ++ [⟨component, panicked⟩]

/-- A service whose calls and whose futures' polls are recorded. -/
def Service.watched {Req Res E : Type} (onCall onPoll : ω) (S : Service σ Req Res E) :
    Service (σ × List (Invocation ω)) Req Res E where
  Inst := S.Inst
  Future := S.Future
  clone inst := noted unnoted (S.clone inst)
  pollReady := notedPart unnoted S.pollReady
  call request := notedPart (entered onCall) (S.call request)
  poll := notedPart (entered onPoll) S.poll

/-- The number of invocations of a component. -/
def invocations [DecidableEq ω] (component : ω) (record : List (Invocation ω)) : ℕ :=
  record.countP (·.component = component)

end Invocations

end Rust
