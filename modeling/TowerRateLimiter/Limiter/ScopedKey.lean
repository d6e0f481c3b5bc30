import TowerRateLimiter.Limiter.Policy
import Mathlib.Data.List.Basic

/-!
# Scoped keys are unambiguous

`make_key` joins two escaped parts with a colon. The escaping is two replacements in a row, first of
`%` and then of `:`; together they replace each character by a word of a self-delimiting code
without colons, so both parts can be read back (`makeKey_inj`).
-/

namespace TowerRateLimiter

/-! ## Self-delimiting codes -/

/-- A code whose words are not empty and can be told apart at the front of any text. -/
structure SelfDelimiting {α β : Type*} (code : α → List β) : Prop where
  nonempty : ∀ a, code a ≠ []
  delimits : ∀ a b u v, code a ++ u = code b ++ v → a = b

/-- Texts of a self-delimiting code are uniquely decodable. -/
theorem SelfDelimiting.flatMap_injective {α β : Type*} {code : α → List β}
    (h : SelfDelimiting code) : Function.Injective (List.flatMap code) := by
  intro l₁ l₂ heq
  induction l₁ generalizing l₂ with
  | nil =>
    cases l₂ with
    | nil => rfl
    | cons b l₂ =>
      have hnil : code b ++ l₂.flatMap code = [] := heq.symm
      exact absurd (List.append_eq_nil_iff.mp hnil).1 (h.nonempty b)
  | cons a l₁ ih =>
    cases l₂ with
    | nil =>
      have hnil : code a ++ l₁.flatMap code = [] := heq
      exact absurd (List.append_eq_nil_iff.mp hnil).1 (h.nonempty a)
    | cons b l₂ =>
      have hcons : code a ++ l₁.flatMap code = code b ++ l₂.flatMap code := heq
      obtain rfl := h.delimits a b _ _ hcons
      rw [ih (List.append_cancel_left hcons)]

/-! ## Escaping -/

/-- The escaped form of one character. -/
def escapeChar (c : Char) : List Char :=
  if c = '%' then "%25".toList else if c = ':' then "%3A".toList else [c]

/-- The two replacements escape each character on its own: the first one adds no colon. -/
theorem toList_escapeKeyPart (value : String) :
    (escapeKeyPart value).toList = value.toList.flatMap escapeChar := by
  rw [escapeKeyPart, String.toList_ofList, replaceChar, replaceChar, List.flatMap_assoc]
  congr 1
  funext c
  unfold escapeChar
  split
  · rfl
  · simp

theorem escapeChar_cases (c : Char) :
    (c = '%' ∧ escapeChar c = ['%', '2', '5']) ∨ (c = ':' ∧ escapeChar c = ['%', '3', 'A']) ∨
      (c ≠ '%' ∧ c ≠ ':' ∧ escapeChar c = [c]) := by
  by_cases hpercent : c = '%'
  · exact .inl ⟨hpercent, by rw [hpercent]; rfl⟩
  · by_cases hcolon : c = ':'
    · exact .inr (.inl ⟨hcolon, by rw [hcolon]; rfl⟩)
    · exact .inr (.inr ⟨hpercent, hcolon, by rw [escapeChar, if_neg hpercent, if_neg hcolon]⟩)

/-- An escape starts with a percent sign, which starts nothing else, and its second character tells
which one it is. -/
theorem escapeChar_selfDelimiting : SelfDelimiting escapeChar where
  nonempty c := by
    rcases escapeChar_cases c with ⟨-, h⟩ | ⟨-, h⟩ | ⟨-, -, h⟩ <;> simp [h]
  delimits c d u v h := by
    rcases escapeChar_cases c with ⟨hc, hc'⟩ | ⟨hc, hc'⟩ | ⟨hp, hq, hc'⟩ <;>
    rcases escapeChar_cases d with ⟨hd, hd'⟩ | ⟨hd, hd'⟩ | ⟨hp', hq', hd'⟩ <;>
    · rw [hc', hd'] at h
      grind

theorem escapeKeyPart_injective : Function.Injective escapeKeyPart := by
  intro s t h
  have hcodes : s.toList.flatMap escapeChar = t.toList.flatMap escapeChar := by
    rw [← toList_escapeKeyPart, ← toList_escapeKeyPart, h]
  exact String.toList_inj.mp (escapeChar_selfDelimiting.flatMap_injective hcodes)

/-- An escaped part has no colon. -/
theorem colon_notMem_escapeKeyPart (value : String) : ':' ∉ (escapeKeyPart value).toList := by
  rw [toList_escapeKeyPart]
  intro h
  obtain ⟨c, -, hc⟩ := List.mem_flatMap.mp h
  rcases escapeChar_cases c with ⟨-, hc'⟩ | ⟨-, hc'⟩ | ⟨-, hcolon, hc'⟩ <;> rw [hc'] at hc
  · exact absurd hc (by decide)
  · exact absurd hc (by decide)
  · exact hcolon (List.mem_singleton.mp hc).symm

/-- **A scoped key determines its policy name and its client key.** -/
theorem makeKey_inj {p p' c c' : String} : makeKey p c = makeKey p' c' ↔ p = p' ∧ c = c' := by
  constructor
  · intro h
    have hlist : (escapeKeyPart p).toList ++ ':' :: (escapeKeyPart c).toList =
        (escapeKeyPart p').toList ++ ':' :: (escapeKeyPart c').toList := by
      simpa [makeKey] using congrArg String.toList h
    obtain ⟨hp, -, hc⟩ := (List.append_cons_inj_of_notMem (colon_notMem_escapeKeyPart p)
      (colon_notMem_escapeKeyPart c)).mp hlist
    exact ⟨escapeKeyPart_injective (String.toList_inj.mp hp),
      escapeKeyPart_injective (String.toList_inj.mp hc)⟩
  · rintro ⟨rfl, rfl⟩
    rfl

end TowerRateLimiter
