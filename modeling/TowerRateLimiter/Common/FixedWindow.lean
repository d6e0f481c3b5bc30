import Mathlib.Tactic.Ring
import Mathlib.Tactic.Linarith
import Mathlib.Data.List.Basic
import Mathlib.Data.List.Induction
import Mathlib.Logic.Function.Basic

/-!
# The fixed-window counter

A fixed-window counter keeps one window per key. A charge at instant `now` asking for `length` lands
in the key's window while `now` is before its end, and otherwise opens the window
`[now, now + length)`. `Book` is the state, `land` the window a charge lands in and `assign` pairs
every charge of a history with that window; windows of one key are numbered by `serial` and the
charges of one window by `count`.

Main results:

* `counts_eq_range'`: the charges of one window carry the numbers `1, 2, 3, …` in charge order.
* `assign_spaced`: windows of one key that ask for one length start at least that length apart.
* `countP_interval_le`: an interval of length `T` meets at most `⌈T / length⌉ + 1` windows of a key,
  so it holds at most that many times what one window may hold.
-/

namespace FixedWindow

/-- One charge: its key, the instant of its atomic step and the window length it asks for. -/
structure Charge (κ : Type*) where
  key : κ
  now : ℕ
  length : ℕ

/-- One window of a key: how many windows of the key came before it, the interval it covers and
how many charges have landed in it. -/
@[ext]
structure Window where
  serial : ℕ
  opens : ℕ
  closes : ℕ
  count : ℕ
deriving DecidableEq, Repr

/-- The window with number `serial` that a charge opens. -/
def Window.opening (serial now length : ℕ) : Window := ⟨serial, now, now + length, 1⟩

/-- The window a charge lands in, given the last window of its key. -/
def land (last : Option Window) (now length : ℕ) : Window :=
  match last with
  | none => .opening 0 now length
  | some w =>
      if now < w.closes then { w with count := w.count + 1 }
      else .opening (w.serial + 1) now length

/-- A charge at `now` opens a window: the key has none, or its last one is over. -/
def Opens (last : Option Window) (now : ℕ) : Prop := ∀ w, last = some w → w.closes ≤ now

instance (last : Option Window) (now : ℕ) : Decidable (Opens last now) :=
  match last with
  | none => isTrue fun _ h => absurd h (by simp)
  | some w => decidable_of_iff (w.closes ≤ now)
      ⟨fun h _ hw => Option.some.inj hw ▸ h, fun h => h w rfl⟩

theorem land_of_opens {last : Option Window} {now : ℕ} (h : Opens last now) (length : ℕ) :
    (land last now length).opens = now ∧ (land last now length).closes = now + length ∧
      (land last now length).count = 1 := by
  cases last with
  | none => exact ⟨rfl, rfl, rfl⟩
  | some w =>
    rw [land, if_neg (Nat.not_lt.mpr (h w rfl))]
    exact ⟨rfl, rfl, rfl⟩

theorem land_of_active {w : Window} {now : ℕ} (h : now < w.closes) (length : ℕ) :
    land (some w) now length = { w with count := w.count + 1 } := if_pos h

/-- A charge that opens no window lands in the key's active one. -/
theorem exists_active_of_not_opens {last : Option Window} {now : ℕ} (h : ¬ Opens last now) :
    ∃ w, last = some w ∧ now < w.closes := by
  simp only [Opens, not_forall, Nat.not_le] at h
  obtain ⟨w, hw, hlt⟩ := h
  exact ⟨w, hw, hlt⟩

/-- A window on another clock: `f` is where it opens and `g` where it closes. -/
def Window.reindex (f g : ℕ → ℕ) (w : Window) : Window :=
  { w with opens := f w.opens, closes := g w.closes }

theorem Window.reindex_count (f g : ℕ → ℕ) (w : Window) : (w.reindex f g).count = w.count := rfl

/-- A charge lands in the same window on another clock, when the clocks agree on whether the key's
last window is over and on where a window that opens now ends. -/
theorem land_reindex {f g : ℕ → ℕ} {last : Option Window} {now length now' length' : ℕ}
    (hfrom : f now = now') (hto : g (now + length) = now' + length')
    (hactive : ∀ w, last = some w → (now' < g w.closes ↔ now < w.closes)) :
    land (last.map (Window.reindex f g)) now' length' = (land last now length).reindex f g := by
  cases last with
  | none => simp only [Option.map_none, land, Window.opening, Window.reindex, hfrom, hto]
  | some w =>
    have hiff : now' < (w.reindex f g).closes ↔ now < w.closes := hactive w rfl
    simp only [Option.map_some, land]
    by_cases h : now < w.closes
    · rw [if_pos h, if_pos (hiff.mpr h)]
      rfl
    · rw [if_neg h, if_neg (h ∘ hiff.mp)]
      simp only [Window.opening, Window.reindex, hfrom, hto]

/-- The last window of every key. -/
abbrev Book (κ : Type*) := κ → Option Window

variable {κ α : Type*} [DecidableEq κ]

namespace Book

/-- No key has a window yet. -/
def empty : Book κ := fun _ => none

/-- Record a charge. -/
def charge (b : Book κ) (c : Charge κ) : Book κ :=
  Function.update b c.key (some (land (b c.key) c.now c.length))

/-- Record a history of charges. -/
def after (b : Book κ) (cs : List (Charge κ)) : Book κ := cs.foldl charge b

@[simp] theorem after_nil (b : Book κ) : b.after [] = b := rfl

@[simp] theorem after_cons (b : Book κ) (c : Charge κ) (cs : List (Charge κ)) :
    b.after (c :: cs) = (b.charge c).after cs := rfl

theorem after_append (b : Book κ) (cs ds : List (Charge κ)) :
    b.after (cs ++ ds) = (b.after cs).after ds := List.foldl_append

@[simp] theorem charge_self (b : Book κ) (c : Charge κ) :
    b.charge c c.key = some (land (b c.key) c.now c.length) := Function.update_self ..

theorem charge_of_ne (b : Book κ) {c : Charge κ} {k : κ} (h : k ≠ c.key) :
    b.charge c k = b k := Function.update_of_ne h ..

end Book

/-! ## The window of every charge -/

/-- Pair every element of a history with the window its charge lands in. -/
def assign (view : α → Charge κ) (b : Book κ) : List α → List (α × Window)
  | [] => []
  | a :: as =>
      (a, land (b (view a).key) (view a).now (view a).length) :: assign view (b.charge (view a)) as

/-- Assigning windows keeps the history. -/
theorem map_fst_assign (view : α → Charge κ) (b : Book κ) (as : List α) :
    (assign view b as).map Prod.fst = as := by
  induction as generalizing b with
  | nil => rfl
  | cons a as ih => rw [assign, List.map_cons, ih]

theorem assign_append (view : α → Charge κ) (b : Book κ) (as bs : List α) :
    assign view b (as ++ bs) = assign view b as ++ assign view (b.after (as.map view)) bs := by
  induction as generalizing b with
  | nil => rfl
  | cons a as ih => simp only [List.cons_append, assign, ih, List.map_cons, Book.after_cons]

theorem assign_concat (view : α → Charge κ) (b : Book κ) (as : List α) (a : α) :
    assign view b (as ++ [a]) = assign view b as ++
      [(a, land ((b.after (as.map view)) (view a).key) (view a).now (view a).length)] :=
  assign_append view b as [a]

/-- The book holds, for each key, the window of the key's last charge. -/
theorem after_eq_none_or_mem (view : α → Charge κ) (as : List α) (k : κ) :
    (Book.empty.after (as.map view) k = none ∧ ∀ x ∈ assign view Book.empty as, (view x.1).key ≠ k) ∨
      ∃ x ∈ assign view Book.empty as, (view x.1).key = k ∧
        Book.empty.after (as.map view) k = some x.2 := by
  induction as using List.reverseRecOn with
  | nil => exact Or.inl ⟨rfl, by simp [assign]⟩
  | append_singleton as a ih =>
    rw [List.map_append, Book.after_append, assign_concat]
    by_cases hk : k = (view a).key
    · subst hk
      exact Or.inr ⟨_, List.mem_append_right _ List.mem_cons_self, rfl, Book.charge_self _ _⟩
    · have hlast : ((Book.empty.after (as.map view)).after (List.map view [a])) k
          = Book.empty.after (as.map view) k := Book.charge_of_ne _ hk
      rw [hlast]
      rcases ih with ⟨hnone, hmem⟩ | ⟨x, hx, hxk, hsome⟩
      · refine Or.inl ⟨hnone, fun x hx => ?_⟩
        rcases List.mem_append.mp hx with hx | hx
        · exact hmem x hx
        · rw [List.mem_singleton.mp hx]
          exact Ne.symm hk
      · exact Or.inr ⟨x, List.mem_append_left _ hx, hxk, hsome⟩

/-- The last charge's key has the window of that charge. -/
theorem after_concat_self (view : α → Charge κ) (b : Book κ) (as : List α) (a : α) :
    b.after ((as ++ [a]).map view) (view a).key =
      some (land ((b.after (as.map view)) (view a).key) (view a).now (view a).length) := by
  rw [List.map_append, Book.after_append]
  exact Book.charge_self _ _

/-- The last window of a key was opened by one of the key's charges. -/
theorem exists_opener (view : α → Charge κ) (as : List α) {k : κ} {w : Window}
    (hw : Book.empty.after (as.map view) k = some w) :
    ∃ a ∈ as, (view a).key = k ∧ w.opens = (view a).now ∧
      w.closes = (view a).now + (view a).length := by
  induction as using List.reverseRecOn generalizing w with
  | nil => exact absurd hw (by simp [Book.empty])
  | append_singleton as a ih =>
    rw [List.map_append, Book.after_append] at hw
    by_cases hk : k = (view a).key
    · subst hk
      have hw' := Option.some.inj ((Book.charge_self _ _).symm.trans hw)
      by_cases hopens : Opens (Book.empty.after (as.map view) (view a).key) (view a).now
      · obtain ⟨hfrom, hto, -⟩ := land_of_opens hopens (view a).length
        exact ⟨a, by simp, rfl, hw' ▸ hfrom, hw' ▸ hto⟩
      · obtain ⟨v, hv, hactive⟩ := exists_active_of_not_opens hopens
        rw [hv, land_of_active hactive] at hw'
        obtain ⟨opener, hmem, hkey, hfrom, hto⟩ := ih hv
        exact ⟨opener, by simp [hmem], hkey, hw' ▸ hfrom, hw' ▸ hto⟩
    · have hlast : ((Book.empty.after (as.map view)).after (List.map view [a])) k
          = Book.empty.after (as.map view) k := Book.charge_of_ne _ hk
      obtain ⟨opener, hmem, hopener⟩ := ih (hlast ▸ hw)
      exact ⟨opener, by simp [hmem], hopener⟩

/-- A charge and its window, from the charges before it. -/
theorem exists_of_mem_assign (view : α → Charge κ) (b : Book κ) {as : List α} {x : α × Window}
    (hx : x ∈ assign view b as) :
    ∃ before after, as = before ++ x.1 :: after ∧
      x.2 = land ((b.after (before.map view)) (view x.1).key) (view x.1).now (view x.1).length := by
  induction as generalizing b with
  | nil => simp [assign] at hx
  | cons a as ih =>
    rw [assign] at hx
    rcases List.mem_cons.mp hx with rfl | hx
    · exact ⟨[], as, rfl, rfl⟩
    · obtain ⟨before, after, heq, hw⟩ := ih _ hx
      exact ⟨a :: before, after, by rw [heq, List.cons_append], hw⟩

/-- The window of a charge was opened by this or an earlier charge of its key. -/
theorem exists_opener_of_mem_assign (view : α → Charge κ) {as : List α} {x : α × Window}
    (hx : x ∈ assign view Book.empty as) :
    ∃ before after, as = before ++ x.1 :: after ∧ ∃ a ∈ before ++ [x.1],
      (view a).key = (view x.1).key ∧ x.2.opens = (view a).now ∧
        x.2.closes = (view a).now + (view a).length := by
  obtain ⟨before, after, heq, hw⟩ := exists_of_mem_assign view Book.empty hx
  refine ⟨before, after, heq, exists_opener view (before ++ [x.1]) ?_⟩
  rw [after_concat_self, ← hw]

/-! ## Numbering the charges of one window -/

section Members

variable (view : α → Charge κ)

/-- The charges of window number `serial` of key `k`, in charge order. -/
def members (as : List α) (k : κ) (serial : ℕ) : List (α × Window) :=
  (assign view Book.empty as).filter fun x => (view x.1).key = k ∧ x.2.serial = serial

theorem members_concat (as : List α) (a : α) (k : κ) (serial : ℕ) :
    members view (as ++ [a]) k serial = members view as k serial ++
      [(a, land ((Book.empty.after (as.map view)) (view a).key) (view a).now (view a).length)].filter
        fun x => (view x.1).key = k ∧ x.2.serial = serial := by
  rw [members, assign_concat, List.filter_append]
  rfl

/-- Window `w` is a later one than `u`, or `u` itself with no fewer charges. -/
def UpTo (u w : Window) : Prop :=
  u.serial < w.serial ∨
    (u.serial = w.serial ∧ u.opens = w.opens ∧ u.closes = w.closes ∧ u.count ≤ w.count)

/-- A charge at `now` that landed in `w` comes after one that landed in `u`: in a later window, or
in the same one with a higher number while it is active. -/
def Follows (now : ℕ) (u w : Window) : Prop :=
  u.serial < w.serial ∨ (u.serial = w.serial ∧ u.opens = w.opens ∧ u.closes = w.closes ∧
    u.count < w.count ∧ now < u.closes)

theorem UpTo.refl (u : Window) : UpTo u u := .inr ⟨rfl, rfl, rfl, le_rfl⟩

theorem Follows.upTo {now : ℕ} {u w : Window} (h : Follows now u w) : UpTo u w := by
  rcases h with hlt | ⟨hserial, hopens, hcloses, hcount, -⟩
  · exact .inl hlt
  · exact .inr ⟨hserial, hopens, hcloses, hcount.le⟩

/-- The next charge of a key comes after all charges up to the key's last window. -/
theorem UpTo.land {u w : Window} (h : UpTo u w) (now length : ℕ) :
    Follows now u (FixedWindow.land (some w) now length) := by
  rw [FixedWindow.land]
  split
  next hactive =>
    rcases h with hlt | ⟨hserial, hopens, hcloses, hcount⟩
    · exact .inl hlt
    · exact .inr ⟨hserial, hopens, hcloses, Nat.lt_succ_of_le hcount, hcloses ▸ hactive⟩
  next =>
    refine .inl ?_
    show u.serial < w.serial + 1
    rcases h with hlt | ⟨hserial, -⟩ <;> omega

/-- A key's windows are numbered upwards: no charge so far is beyond the key's last window. -/
theorem upTo_last (as : List α) {x : α × Window} (hx : x ∈ assign view Book.empty as)
    {w : Window} (hw : Book.empty.after (as.map view) (view x.1).key = some w) :
    UpTo x.2 w := by
  induction as using List.reverseRecOn generalizing w with
  | nil => simp [assign] at hx
  | append_singleton as a ih =>
    rw [List.map_append, Book.after_append] at hw
    rw [assign_concat] at hx
    by_cases hk : (view x.1).key = (view a).key
    · have hw' : land ((Book.empty.after (as.map view)) (view a).key) (view a).now (view a).length
          = w := by
        rw [hk] at hw
        exact Option.some.inj ((Book.charge_self _ _).symm.trans hw)
      rcases List.mem_append.mp hx with hx | hx
      · rcases after_eq_none_or_mem view as (view a).key with ⟨-, hmem⟩ | ⟨y, -, -, hlast⟩
        · exact absurd hk (hmem x hx)
        · rw [← hw', hlast]
          exact ((ih hx (hk ▸ hlast)).land _ _).upTo
      · rw [List.mem_singleton.mp hx, ← hw']
        exact UpTo.refl _
    · rw [show ((Book.empty.after (as.map view)).after (List.map view [a])) (view x.1).key
          = Book.empty.after (as.map view) (view x.1).key from Book.charge_of_ne _ hk] at hw
      rcases List.mem_append.mp hx with hx | hx
      · exact ih hx hw
      · rw [List.mem_singleton.mp hx] at hk
        exact absurd rfl hk

/-- **The charges of a key move forward through its windows.** -/
theorem assign_follows (as : List α) :
    (assign view Book.empty as).Pairwise fun x y =>
      (view x.1).key = (view y.1).key → Follows (view y.1).now x.2 y.2 := by
  induction as using List.reverseRecOn with
  | nil => exact List.Pairwise.nil
  | append_singleton as a ih =>
    rw [assign_concat]
    refine List.pairwise_append.mpr ⟨ih, List.pairwise_singleton _ _, fun x hx y hy hk => ?_⟩
    rw [List.mem_singleton.mp hy] at hk ⊢
    rcases after_eq_none_or_mem view as (view a).key with ⟨-, hmem⟩ | ⟨z, -, -, hlast⟩
    · exact absurd hk (hmem x hx)
    · simp only [hlast]
      exact (upTo_last view as hx (hk ▸ hlast)).land _ _

/-- A window that has not opened yet has no charges. -/
theorem members_eq_nil_of_lt (as : List α) {k : κ} {w : Window}
    (hw : Book.empty.after (as.map view) k = some w) {serial : ℕ} (hs : w.serial < serial) :
    members view as k serial = [] := by
  refine List.filter_eq_nil_iff.mpr fun x hx hmem => ?_
  obtain ⟨hk, hserial⟩ := of_decide_eq_true hmem
  rcases upTo_last view as hx (hk ▸ hw) with hlt | ⟨hsame, -⟩ <;> omega

/-- A key without a window has no charges. -/
theorem members_eq_nil_of_none (as : List α) {k : κ}
    (hw : Book.empty.after (as.map view) k = none) (serial : ℕ) :
    members view as k serial = [] := by
  refine List.filter_eq_nil_iff.mpr fun x hx hmem => ?_
  obtain ⟨hk, -⟩ := of_decide_eq_true hmem
  rcases after_eq_none_or_mem view as k with ⟨-, hno⟩ | ⟨y, -, -, hlast⟩
  · exact hno x hx hk
  · rw [hw] at hlast
    exact absurd hlast (by simp)

/-- The last window of a key counts its own charges. -/
theorem length_members_last (as : List α) {k : κ} {w : Window}
    (hw : Book.empty.after (as.map view) k = some w) :
    (members view as k w.serial).length = w.count := by
  induction as using List.reverseRecOn generalizing w with
  | nil => exact absurd hw (by simp [Book.empty])
  | append_singleton as a ih =>
    rw [List.map_append, Book.after_append] at hw
    rw [members_concat]
    by_cases hk : k = (view a).key
    · subst hk
      have hw' : land ((Book.empty.after (as.map view)) (view a).key) (view a).now (view a).length
          = w := Option.some.inj ((Book.charge_self _ _).symm.trans hw)
      rw [hw', List.filter_cons_of_pos (by simp), List.filter_nil, List.length_append,
        List.length_singleton]
      cases hlast : (Book.empty.after (as.map view)) (view a).key with
      | none =>
        rw [hlast] at hw'
        rw [members_eq_nil_of_none view as hlast, ← hw']
        rfl
      | some v =>
        rw [hlast, land] at hw'
        split at hw'
        · rw [← hw', ih hlast]
        · have hfresh : members view as (view a).key w.serial = [] :=
            members_eq_nil_of_lt view as hlast (hw' ▸ Nat.lt_succ_self v.serial)
          rw [hfresh, ← hw']
          rfl
    · rw [show ((Book.empty.after (as.map view)).after (List.map view [a])) k
          = Book.empty.after (as.map view) k from Book.charge_of_ne _ hk] at hw
      rw [List.filter_cons_of_neg (by simpa using fun h => absurd h.symm hk), List.filter_nil,
        List.append_nil]
      exact ih hw

/-- A charge is numbered one more than the charges already in its window. -/
theorem count_land (as : List α) (a : α) :
    (land ((Book.empty.after (as.map view)) (view a).key) (view a).now (view a).length).count =
      (members view as (view a).key (land ((Book.empty.after (as.map view)) (view a).key)
        (view a).now (view a).length).serial).length + 1 := by
  rw [← length_members_last view (as ++ [a]) (after_concat_self view _ as a), members_concat,
    List.filter_cons_of_pos (by simp), List.length_append]
  rfl

/-- **The charges of one window are numbered `1, 2, 3, …` in charge order.** -/
theorem counts_eq_range' (as : List α) (k : κ) (serial : ℕ) :
    (members view as k serial).map (·.2.count) =
      List.range' 1 (members view as k serial).length := by
  induction as using List.reverseRecOn with
  | nil => rfl
  | append_singleton as a ih =>
    rw [members_concat]
    set w := land ((Book.empty.after (as.map view)) (view a).key) (view a).now (view a).length
      with hw
    by_cases hmem : (view a).key = k ∧ w.serial = serial
    · -- the new charge extends its window: its number is one more than the charges before it
      obtain ⟨rfl, rfl⟩ := hmem
      have hcount := count_land view as a
      rw [← hw] at hcount
      rw [List.filter_cons_of_pos (by simp), List.filter_nil, List.length_append,
        List.length_singleton, List.map_append, ih, List.range'_concat, List.map_singleton, hcount]
      congr 2
      omega
    · rw [List.filter_cons_of_neg (by simpa using hmem), List.filter_nil, List.append_nil]
      exact ih

/-- The first charge of a window has number one. -/
theorem count_of_head_members (as : List α) {k : κ} {serial : ℕ} {x : α × Window}
    (hx : (members view as k serial).head? = some x) : x.2.count = 1 := by
  have hcounts := counts_eq_range' view as k serial
  obtain ⟨rest, hmembers⟩ := List.head?_eq_some_iff.mp hx
  rw [hmembers, List.length_cons, List.range'_succ, List.map_cons] at hcounts
  exact List.head_eq_of_cons_eq hcounts

/-- Of the numbers `1, …, n`, the first `bound` are at most `bound`. -/
theorem countP_range'_le (n bound : ℕ) :
    (List.range' 1 n).countP (· ≤ bound) = min n bound := by
  induction n with
  | zero => simp
  | succ n ih =>
    rw [List.range'_concat, List.countP_append, ih, List.countP_singleton]
    simp only [decide_eq_true_eq]
    split <;> omega

/-- Of the charges of one window, exactly the first `bound` have a number of at most `bound`. -/
theorem countP_members (as : List α) (k : κ) (serial bound : ℕ) :
    (members view as k serial).countP (fun x => x.2.count ≤ bound) =
      min (members view as k serial).length bound := by
  rw [← countP_range'_le, ← counts_eq_range', List.countP_map]
  rfl

end Members

/-! ## Windows of one length are spaced by it -/

section Spaced

variable (view : α → Charge κ)

/-- The charges of each key happen in time order. -/
def InOrder (as : List α) : Prop :=
  as.Pairwise fun a b => (view a).key = (view b).key → (view a).now ≤ (view b).now

/-- A charge is inside its window, which has the length asked for. -/
def Inside (length : ℕ) (x : α × Window) : Prop :=
  x.2.opens ≤ (view x.1).now ∧ (view x.1).now < x.2.closes ∧ x.2.closes = x.2.opens + length

/-- Window `u` is window `w` or an earlier one, and the windows from `u` to `w` each take up
`length`. -/
def Before (length : ℕ) (u w : Window) : Prop :=
  u.serial ≤ w.serial ∧ u.opens + length * (w.serial - u.serial) ≤ w.opens

/-- The next charge of a key does not land before the key's last window. -/
theorem Before.land {length now : ℕ} {u w : Window} (h : Before length u w)
    (hw : w.closes = w.opens + length) :
    Before length u (FixedWindow.land (some w) now length) := by
  obtain ⟨hserial, hopens⟩ := h
  rw [FixedWindow.land]
  split
  · exact ⟨hserial, hopens⟩
  · refine ⟨Nat.le_succ_of_le hserial, ?_⟩
    show u.opens + length * (w.serial + 1 - u.serial) ≤ now
    rw [Nat.succ_sub hserial, Nat.mul_succ]
    omega

/-- The invariant behind `assign_spaced`: every charge is inside its window, the windows of a key
are spaced along the history, and the book holds the last of them. -/
structure SpacedHistory (length : ℕ) (as : List α) : Prop where
  inside : ∀ x ∈ assign view Book.empty as, Inside view length x
  spaced : (assign view Book.empty as).Pairwise fun x y =>
    (view x.1).key = (view y.1).key → Before length x.2 y.2
  last : ∀ x ∈ assign view Book.empty as, ∀ w,
    Book.empty.after (as.map view) (view x.1).key = some w → Before length x.2 w

/-- **Windows of one length start at least that length apart**, and every charge is inside its
window. -/
theorem assign_spaced {length : ℕ} (hlength : 0 < length) (as : List α)
    (hlen : ∀ a ∈ as, (view a).length = length) (horder : InOrder view as) :
    SpacedHistory view length as := by
  induction as using List.reverseRecOn with
  | nil => exact ⟨by simp [assign], List.Pairwise.nil, by simp [assign]⟩
  | append_singleton as a ih =>
    obtain ⟨horder', -, hbefore⟩ := List.pairwise_append.mp horder
    obtain ⟨hinside, hspaced, hlast⟩ := ih (fun b hb => hlen b (by simp [hb])) horder'
    have hbook : Book.empty.after ((as ++ [a]).map view)
        = (Book.empty.after (as.map view)).charge (view a) := by
      rw [List.map_append, Book.after_append]
      rfl
    set w := land ((Book.empty.after (as.map view)) (view a).key) (view a).now (view a).length
      with hw
    rw [hlen a (by simp)] at hw
    -- the window of the new charge, against the key's last window if there is one
    have hnew : Inside view length (a, w) ∧ ∀ x ∈ assign view Book.empty as,
        (view x.1).key = (view a).key → Before length x.2 w := by
      rcases after_eq_none_or_mem view as (view a).key with ⟨hnone, hno⟩ | ⟨y, hy, hyk, hy'⟩
      · rw [hnone] at hw
        refine ⟨?_, fun x hx hk => absurd hk (hno x hx)⟩
        rw [hw]
        exact ⟨le_rfl, Nat.lt_add_of_pos_right hlength, rfl⟩
      · obtain ⟨hopens, hcloses, hylen⟩ := hinside y hy
        rw [hy'] at hw
        refine ⟨?_, fun x hx hk => hw ▸ (hlast x hx _ (hk ▸ hy')).land hylen⟩
        have hmem : y.1 ∈ as := by
          rw [← map_fst_assign view Book.empty as]
          exact List.mem_map_of_mem hy
        have hya := hbefore y.1 hmem a List.mem_cons_self hyk
        rw [hw, land]
        split
        · exact ⟨hopens.trans hya, by assumption, hylen⟩
        · exact ⟨le_rfl, Nat.lt_add_of_pos_right hlength, rfl⟩
    refine ⟨fun x hx => ?_, ?_, fun x hx v hv => ?_⟩
    · rw [assign_concat] at hx
      rcases List.mem_append.mp hx with hx | hx
      · exact hinside x hx
      · rw [List.mem_singleton.mp hx]
        exact hnew.1
    · rw [assign_concat]
      refine List.pairwise_append.mpr ⟨hspaced, List.pairwise_singleton _ _, fun x hx y hy => ?_⟩
      rw [List.mem_singleton.mp hy]
      exact hnew.2 x hx
    · rw [assign_concat] at hx
      rw [hbook] at hv
      by_cases hk : (view x.1).key = (view a).key
      · rw [hk, Book.charge_self] at hv
        rw [← Option.some.inj hv]
        rcases List.mem_append.mp hx with hx | hx
        · exact hnew.2 x hx hk
        · rw [List.mem_singleton.mp hx]
          exact ⟨le_rfl, by simp⟩
      · rw [Book.charge_of_ne _ hk] at hv
        rcases List.mem_append.mp hx with hx | hx
        · exact hlast x hx v hv
        · rw [List.mem_singleton.mp hx] at hk
          exact absurd rfl hk

end Spaced

/-! ## Counting over an interval -/

/-- No more elements pass one of two tests than pass the tests one by one. -/
theorem countP_or_le {β : Type*} (l : List β) (p q : β → Bool) :
    l.countP (fun b => p b || q b) ≤ l.countP p + l.countP q := by
  induction l with
  | nil => exact Nat.zero_le _
  | cons b l ih =>
    simp only [List.countP_cons]
    cases p b <;> cases q b <;> simp only [Bool.or_self, Bool.or_true, Bool.or_false, if_true,
      Bool.false_eq_true, if_false] <;> omega

/-- Count a list by the fibres of `f` over `n` consecutive numbers. -/
theorem countP_le_mul_of_fibres {β : Type*} (l : List β) (p : β → Bool) (f : β → ℕ)
    (lo n bound : ℕ) (hrange : ∀ b ∈ l, p b = true → lo ≤ f b ∧ f b < lo + n)
    (hfibre : ∀ s, l.countP (fun b => p b && f b == s) ≤ bound) : l.countP p ≤ n * bound := by
  induction n generalizing p with
  | zero =>
    rw [Nat.zero_mul, Nat.le_zero, List.countP_eq_zero]
    intro b hb hpb
    have := hrange b hb hpb
    omega
  | succ n ih =>
    -- split off the last fibre
    have hsplit : l.countP p = l.countP (fun b => p b && (f b != lo + n)) +
        l.countP (fun b => p b && f b == lo + n) := by
      rw [List.countP_eq_countP_filter_add l p (fun b => f b != lo + n), List.countP_filter,
        List.countP_filter]
      simp only [bne, Bool.not_not]
    have hrest := ih (fun b => p b && (f b != lo + n))
      (fun b hb hpb => by
        simp only [Bool.and_eq_true, bne_iff_ne] at hpb
        have := hrange b hb hpb.1
        omega)
      (fun s => (List.countP_mono_left fun b _ hb => by
        simp only [Bool.and_eq_true] at hb ⊢
        exact ⟨hb.1.1, hb.2⟩).trans (hfibre s))
    rw [hsplit, Nat.succ_mul]
    exact Nat.add_le_add hrest (hfibre (lo + n))

/-- The charges of key `k` in `[start, start + span)` that pass the test `p`. -/
def inInterval (view : α → Charge κ) (k : κ) (start span : ℕ) (p : α × Window → Bool)
    (x : α × Window) : Bool :=
  ((view x.1).key = k ∧ start ≤ (view x.1).now ∧ (view x.1).now < start + span) && p x

/-- **An interval meets at most `⌈span / length⌉ + 1` windows of a key.** If no window has more than
`bound` charges that pass the test `p`, the interval has at most that many times `bound`. -/
theorem countP_interval_le (view : α → Charge κ) {length : ℕ} (hlength : 0 < length)
    (as : List α) (hlen : ∀ a ∈ as, (view a).length = length) (horder : InOrder view as) (k : κ)
    (start span : ℕ) (p : α × Window → Bool) (bound : ℕ)
    (hp : ∀ serial, (members view as k serial).countP p ≤ bound) :
    (assign view Book.empty as).countP (inInterval view k start span p) ≤
      ((span + length - 1) / length + 1) * bound := by
  obtain ⟨hinside, hspaced, -⟩ := assign_spaced view hlength as hlen horder
  have hfibre : ∀ serial, (assign view Book.empty as).countP
      (fun x => inInterval view k start span p x && x.2.serial == serial) ≤ bound := by
    intro serial
    refine le_trans ?_ (hp serial)
    rw [members, List.countP_filter]
    refine List.countP_mono_left fun x _ hx => ?_
    simp only [inInterval, Bool.and_eq_true, decide_eq_true_eq, beq_iff_eq] at hx ⊢
    exact ⟨hx.1.2, hx.1.1.1, hx.2⟩
  -- all charges in the interval are in windows numbered from that of the first of them
  rcases hfirst : (assign view Book.empty as).filter (inInterval view k start span p) with
    _ | ⟨x, xs⟩
  · rw [List.countP_eq_length_filter, hfirst]
    exact Nat.zero_le _
  · have hsorted := hspaced.filter (inInterval view k start span p)
    rw [hfirst, List.pairwise_cons] at hsorted
    have hmem : ∀ y, y ∈ assign view Book.empty as → inInterval view k start span p y = true →
        y ∈ x :: xs := fun y hy hpy => hfirst ▸ List.mem_filter.mpr ⟨hy, hpy⟩
    have hx : x ∈ assign view Book.empty as ∧ inInterval view k start span p x = true :=
      List.mem_filter.mp (hfirst ▸ List.mem_cons_self)
    have hxin : (view x.1).key = k ∧ start ≤ (view x.1).now ∧ (view x.1).now < start + span := by
      have := hx.2
      simp only [inInterval, Bool.and_eq_true, decide_eq_true_eq] at this
      exact this.1
    obtain ⟨hxk, hxlo, -⟩ := hxin
    obtain ⟨-, hxcloses, hxlen⟩ := hinside x hx.1
    refine countP_le_mul_of_fibres _ _ (fun y => y.2.serial) x.2.serial _ bound ?_ hfibre
    intro y hy hpy
    have hyin := hpy
    simp only [inInterval, Bool.and_eq_true, decide_eq_true_eq] at hyin
    obtain ⟨⟨hyk, -, hyhi⟩, -⟩ := hyin
    have hxy : Before length x.2 y.2 := by
      rcases List.mem_cons.mp (hmem y hy hpy) with rfl | hyxs
      · exact ⟨le_rfl, by simp⟩
      · exact hsorted.1 y hyxs (hxk.trans hyk.symm)
    obtain ⟨hserial, hopens⟩ := hxy
    have hyopens := (hinside y hy).1
    refine ⟨hserial, ?_⟩
    -- the windows strictly between the two fit into an interval of length `span`
    have hfit : length * (y.2.serial - x.2.serial) < span + length := by omega
    have hlt : y.2.serial - x.2.serial < (span + length - 1) / length + 1 := by
      rw [Nat.lt_succ_iff, Nat.le_div_iff_mul_le hlength, Nat.mul_comm]
      omega
    omega

end FixedWindow
