import Mathlib.Tactic.Ring
import Mathlib.Tactic.Linarith
import Mathlib.Data.List.Basic

/-!
# HTTP Structured Fields

The parsing algorithms of RFC 8941, on the characters of a field value: lists, dictionaries and
items with their parameters, inner lists, and the bare items. A number has at most 15 digits; a
string is printable ASCII between double quotes, with a backslash before each quote and backslash in
it. Byte sequences keep their base64 text and decimals are in thousandths.

A loop that reads one more element consumes at least a character, so the length of its input bounds
its iterations.

Main results:

* `parseStringBody_escape` and `eq_escape_of_parseStringBody`: exactly the escaped strings are read,
  each as itself.
* `parseStringBody_self_iff`: a string is read back from its own text exactly if every character of
  it stands for itself.
* `parseItemField_digits`, `parseDictionaryField_entries`: items and dictionaries of numbers are
  read exactly if no number has more than 15 digits.
* `parseListField_string_iff`: both, for a list of one string with numbers as its parameters.
-/

namespace StructuredFields

/-! ## Values -/

/-- A bare item. -/
inductive BareItem where
  | integer (n : ℤ)
  | decimal (thousandths : ℤ)
  | string (s : String)
  | token (s : String)
  | bytes (encoded : String)
  | boolean (b : Bool)
deriving DecidableEq

/-- Parameters, in order. -/
abbrev Parameters := List (String × BareItem)

/-- An item: a bare item with parameters. -/
structure Item where
  value : BareItem
  parameters : Parameters
deriving DecidableEq

/-- A member of a list or a dictionary. -/
inductive Member where
  | item (item : Item)
  | innerList (items : List Item) (parameters : Parameters)
deriving DecidableEq

/-- Set the value of a key: in place if it is there, at the end otherwise. -/
def upsert {α : Type} (entries : List (String × α)) (key : String) (value : α) :
    List (String × α) :=
  if entries.any (·.1 = key) then entries.map fun e => if e.1 = key then (key, value) else e
  else entries ++ [(key, value)]

/-! ## Characters -/

/-- A space or a visible ASCII character. -/
def isPrintable (c : Char) : Bool := 32 ≤ c.toNat && c.toNat ≤ 126

/-- A character that a string can only have after a backslash. -/
def isEscaped (c : Char) : Bool := c = '\"' || c = '\\'

/-- A key starts with a lower-case letter or an asterisk. -/
def isKeyStart (c : Char) : Bool := c.isLower || c = '*'

/-- The further characters of a key. -/
def isKeyChar (c : Char) : Bool :=
  c.isLower || c.isDigit || c = '_' || c = '-' || c = '.' || c = '*'

/-- A token starts with a letter or an asterisk. -/
def isTokenStart (c : Char) : Bool := c.isAlpha || c = '*'

/-- The further characters of a token. -/
def isTokenChar (c : Char) : Bool :=
  c.isAlphanum || "!#$%&\x27*+-.^_\x60|~:/".toList.contains c

/-- The characters of base64 text. -/
def isBase64Char (c : Char) : Bool := c.isAlphanum || c = '+' || c = '/' || c = '='

/-- Optional white space. -/
def isOws (c : Char) : Bool := c = ' ' || c = '\t'

/-! ## Bare items -/

/-- A number with its sign. -/
def signed (negative : Bool) (n : ℕ) : ℤ := if negative then -n else n

/-- An integer or a decimal, after its sign. -/
def parseUnsigned (negative : Bool) (s : List Char) : Option (BareItem × List Char) :=
  let whole := s.takeWhile Char.isDigit
  let rest := s.dropWhile Char.isDigit
  if whole = [] then none
  else if rest.head? = some '.' then
    let fraction := rest.tail.takeWhile Char.isDigit
    if whole.length ≤ 12 ∧ fraction ≠ [] ∧ fraction.length ≤ 3 then
      some (.decimal (signed negative (Nat.ofDigitChars 10 whole 0 * 1000 +
        Nat.ofDigitChars 10 fraction 0 * 10 ^ (3 - fraction.length))),
        rest.tail.dropWhile Char.isDigit)
    else none
  else if whole.length ≤ 15 then
    some (.integer (signed negative (Nat.ofDigitChars 10 whole 0)), rest)
  else none

/-- The characters of a string, after the opening quote and up to the closing one. -/
def parseStringBody : List Char → Option (List Char × List Char)
  | [] => none
  | [c] => if c = '\"' then some ([], []) else none
  | c :: d :: rest =>
      if c = '\"' then some ([], d :: rest)
      else if c = '\\' then
        if isEscaped d then (parseStringBody rest).map fun x => (d :: x.1, x.2) else none
      else if isPrintable c then (parseStringBody (d :: rest)).map fun x => (c :: x.1, x.2)
      else none

/-- Base64 text, after the opening colon and up to the closing one. -/
def parseByteSequence (s : List Char) : Option (BareItem × List Char) :=
  match s.dropWhile isBase64Char with
  | ':' :: rest => some (.bytes (String.ofList (s.takeWhile isBase64Char)), rest)
  | _ => none

/-- A Boolean, after the question mark. -/
def parseBoolean : List Char → Option (BareItem × List Char)
  | '1' :: rest => some (.boolean true, rest)
  | '0' :: rest => some (.boolean false, rest)
  | _ => none

/-- A bare item; its first character decides which. -/
def parseBareItem : List Char → Option (BareItem × List Char)
  | [] => none
  | c :: rest =>
      if c = '-' then parseUnsigned true rest
      else if c.isDigit then parseUnsigned false (c :: rest)
      else if c = '\"' then
        (parseStringBody rest).map fun x => (.string (String.ofList x.1), x.2)
      else if c = ':' then parseByteSequence rest
      else if c = '?' then parseBoolean rest
      else if isTokenStart c then
        some (.token (String.ofList (c :: rest.takeWhile isTokenChar)), rest.dropWhile isTokenChar)
      else none

/-! ## Parameters, items and containers -/

/-- A key. -/
def parseKey : List Char → Option (String × List Char)
  | [] => none
  | c :: rest =>
      if isKeyStart c then
        some (String.ofList (c :: rest.takeWhile isKeyChar), rest.dropWhile isKeyChar)
      else none

/-- The parameters from here on, added to those before. -/
def parseParameters : ℕ → Parameters → List Char → Option (Parameters × List Char)
  | _, before, [] => some (before, [])
  | 0, before, c :: rest => if c = ';' then none else some (before, c :: rest)
  | n + 1, before, c :: rest =>
      if c = ';' then
        (parseKey (rest.dropWhile (· = ' '))).bind fun (key, rest) =>
          match rest with
          | '=' :: rest => (parseBareItem rest).bind fun (value, rest) =>
              parseParameters n (upsert before key value) rest
          | rest => parseParameters n (upsert before key (.boolean true)) rest
      else some (before, c :: rest)

/-- An item. -/
def parseItem (s : List Char) : Option (Item × List Char) :=
  (parseBareItem s).bind fun (value, rest) =>
    (parseParameters rest.length [] rest).map fun (parameters, rest) => (⟨value, parameters⟩, rest)

/-- The items of an inner list from here on, and the closing bracket. -/
def parseInnerItems : ℕ → List Item → List Char → Option (List Item × List Char)
  | 0, _, _ => none
  | n + 1, before, s =>
      match s.dropWhile (· = ' ') with
      | [] => none
      | ')' :: rest => some (before, rest)
      | s => (parseItem s).bind fun (item, rest) =>
          match rest with
          | [] => none
          | c :: _ => if c = ' ' ∨ c = ')' then parseInnerItems n (before ++ [item]) rest else none

/-- A member: an inner list or an item. -/
def parseMember : List Char → Option (Member × List Char)
  | '(' :: rest => (parseInnerItems (rest.length + 1) [] rest).bind fun (items, rest) =>
      (parseParameters rest.length [] rest).map fun (parameters, rest) =>
        (.innerList items parameters, rest)
  | s => (parseItem s).map fun (item, rest) => (.item item, rest)

/-- What follows a member: the end, or a comma and the next member. -/
def parseSeparator (s : List Char) : Option (List Char) :=
  match s.dropWhile isOws with
  | [] => some []
  | ',' :: rest =>
      match rest.dropWhile isOws with
      | [] => none
      | rest => some rest
  | _ => none

/-- The members of a list from here on. -/
def parseMembers : ℕ → List Member → List Char → Option (List Member)
  | _, before, [] => some before
  | 0, _, _ :: _ => none
  | n + 1, before, c :: rest => (parseMember (c :: rest)).bind fun (member, rest) =>
      (parseSeparator rest).bind fun rest => parseMembers n (before ++ [member]) rest

/-- The entries of a dictionary from here on. -/
def parseEntries : ℕ → List (String × Member) → List Char → Option (List (String × Member))
  | _, before, [] => some before
  | 0, _, _ :: _ => none
  | n + 1, before, c :: rest => (parseKey (c :: rest)).bind fun (key, rest) =>
      let entry := match rest with
        | '=' :: rest => parseMember rest
        | rest => (parseParameters rest.length [] rest).map fun (parameters, rest) =>
            (.item ⟨.boolean true, parameters⟩, rest)
      entry.bind fun (member, rest) =>
        (parseSeparator rest).bind fun rest => parseEntries n (upsert before key member) rest

/-! ## Fields -/

/-- The characters of a field value, without leading spaces. -/
def fieldChars (text : String) : List Char := text.toList.dropWhile (· = ' ')

/-- A field that is a list. -/
def parseListField (text : String) : Option (List Member) :=
  parseMembers (fieldChars text).length [] (fieldChars text)

/-- A field that is a dictionary. -/
def parseDictionaryField (text : String) : Option (List (String × Member)) :=
  parseEntries (fieldChars text).length [] (fieldChars text)

/-- A field that is an item. -/
def parseItemField (text : String) : Option Item :=
  (parseItem (fieldChars text)).bind fun (item, rest) =>
    if rest.all (· = ' ') then some item else none

/-! ## Strings are read from their escaped text -/

/-- A string as it stands between its quotes. -/
def escape (t : List Char) : List Char := t.flatMap fun c => if isEscaped c then ['\\', c] else [c]

@[simp] theorem escape_nil : escape [] = [] := rfl

theorem escape_cons_of_escaped {c : Char} (h : isEscaped c = true) (t : List Char) :
    escape (c :: t) = '\\' :: c :: escape t := by
  simp [escape, h]

theorem escape_cons_of_plain {c : Char} (h : isEscaped c = false) (t : List Char) :
    escape (c :: t) = c :: escape t := by
  simp [escape, h]

theorem isPrintable_of_escaped {c : Char} (h : isEscaped c = true) : isPrintable c = true := by
  simp only [isEscaped, Bool.or_eq_true, decide_eq_true_eq] at h
  rcases h with rfl | rfl <;> rfl

/-- The closing quote ends a string. -/
theorem parseStringBody_quote (rest : List Char) :
    parseStringBody ('\"' :: rest) = some ([], rest) := by
  cases rest <;> rfl

/-- A plain character is read as itself. -/
theorem parseStringBody_plain {c : Char} (h : isEscaped c = false) (hc : isPrintable c = true)
    (s : List Char) :
    parseStringBody (c :: s) = (parseStringBody s).map fun x => (c :: x.1, x.2) := by
  simp only [isEscaped, Bool.or_eq_false_iff, decide_eq_false_iff_not] at h
  cases s with
  | nil =>
    show (if c = '\"' then some ([], []) else none) = none
    exact if_neg h.1
  | cons d s => rw [parseStringBody, if_neg h.1, if_neg h.2, if_pos hc]

/-- A character after a backslash is read as itself. -/
theorem parseStringBody_escaped {c : Char} (h : isEscaped c = true) (s : List Char) :
    parseStringBody ('\\' :: c :: s) = (parseStringBody s).map fun x => (c :: x.1, x.2) := by
  rw [parseStringBody, if_neg (by decide), if_pos rfl, if_pos h]

/-- An escaped string is read as itself. -/
theorem parseStringBody_escape {t : List Char} (h : t.all isPrintable = true) (rest : List Char) :
    parseStringBody (escape t ++ '\"' :: rest) = some (t, rest) := by
  induction t with
  | nil => exact parseStringBody_quote rest
  | cons c t ih =>
    rw [List.all_cons, Bool.and_eq_true] at h
    cases hc : isEscaped c with
    | true =>
      rw [escape_cons_of_escaped hc, List.cons_append, List.cons_append,
        parseStringBody_escaped hc, ih h.2]
      rfl
    | false =>
      rw [escape_cons_of_plain hc, List.cons_append, parseStringBody_plain hc h.1, ih h.2]
      rfl

/-- What is read is an escaped string. -/
theorem eq_escape_of_parseStringBody {s t rest : List Char}
    (h : parseStringBody s = some (t, rest)) :
    s = escape t ++ '\"' :: rest ∧ t.all isPrintable = true := by
  fun_induction parseStringBody s generalizing t with
  | case1 => exact absurd h (by simp)
  | case2 =>
    obtain ⟨rfl, rfl⟩ := Prod.mk.inj (Option.some.inj h)
    exact ⟨rfl, rfl⟩
  | case3 => exact absurd h (by simp)
  | case4 d rest' =>
    obtain ⟨rfl, rfl⟩ := Prod.mk.inj (Option.some.inj h)
    exact ⟨rfl, rfl⟩
  | case5 d rest' hd _ ih =>
    obtain ⟨⟨t', r⟩, hbody, heq⟩ := Option.map_eq_some_iff.mp h
    obtain ⟨rfl, rfl⟩ := Prod.mk.inj heq
    obtain ⟨rfl, ht⟩ := ih hbody
    refine ⟨by rw [escape_cons_of_escaped hd]; rfl, ?_⟩
    rw [List.all_cons, isPrintable_of_escaped hd, ht]
    rfl
  | case6 => exact absurd h (by simp)
  | case7 c d rest' hquote hslash hc ih =>
    obtain ⟨⟨t', r⟩, hbody, heq⟩ := Option.map_eq_some_iff.mp h
    obtain ⟨rfl, rfl⟩ := Prod.mk.inj heq
    obtain ⟨hs, ht⟩ := ih hbody
    have hplain : isEscaped c = false := by simp [isEscaped, hquote, hslash]
    refine ⟨by rw [escape_cons_of_plain hplain, List.cons_append, ← hs], ?_⟩
    rw [List.all_cons, hc, ht]
    rfl
  | case8 => exact absurd h (by simp)

/-- Backslashes before the escaped text of a string never lead back into its own text. -/
theorem backslashes_escape_ne {b tail rest : List Char} (k : ℕ) :
    List.replicate (k + 1) '\\' ++ (escape b ++ '\"' :: rest) ≠ b ++ '\"' :: tail := by
  induction b generalizing k with
  | nil => simp [List.replicate_succ]
  | cons c b ih =>
    intro h
    rw [List.replicate_succ, List.cons_append, List.cons_append] at h
    obtain ⟨rfl, h⟩ := List.cons.inj h
    -- one backslash is matched and the escape of this one brings another
    rw [escape_cons_of_escaped rfl] at h
    refine ih (k + 1) ?_
    rw [← h]
    simp [List.replicate_succ', List.append_assoc]

/-- **A string that needs escapes is never read back from its own text.** -/
theorem not_escaped_of_append {t tail rest : List Char}
    (h : t ++ '\"' :: tail = escape t ++ '\"' :: rest) :
    t.all (fun c => !isEscaped c) = true := by
  induction t with
  | nil => rfl
  | cons c t ih =>
    cases hc : isEscaped c with
    | true =>
      rw [escape_cons_of_escaped hc, List.cons_append, List.cons_append] at h
      obtain ⟨rfl, h⟩ := List.cons.inj h
      exact absurd h.symm (backslashes_escape_ne 0)
    | false =>
      rw [escape_cons_of_plain hc, List.cons_append, List.cons_append] at h
      rw [List.all_cons, hc, ih (List.cons.inj h).2]
      rfl

/-! ## Numbers are read from their digits -/

/-- The bound on the numbers that an integer can have: 15 digits. -/
def integerEnd : ℕ := 10 ^ 15

/-- The text does not go on with the predicate. -/
def Stops (p : Char → Bool) (rest : List Char) : Prop := ∀ c ∈ rest.head?, p c = false

theorem Stops.takeWhile {p : Char → Bool} {rest : List Char} (h : Stops p rest) :
    rest.takeWhile p = [] := by
  cases rest with
  | nil => rfl
  | cons c rest => simp [h c rfl]

theorem Stops.dropWhile {p : Char → Bool} {rest : List Char} (h : Stops p rest) :
    rest.dropWhile p = rest := by
  cases rest with
  | nil => rfl
  | cons c rest => simp [h c rfl]

theorem takeWhile_append {p : Char → Bool} {s rest : List Char} (hs : ∀ c ∈ s, p c = true)
    (hrest : Stops p rest) : (s ++ rest).takeWhile p = s := by
  rw [List.takeWhile_append_of_pos hs, hrest.takeWhile, List.append_nil]

theorem dropWhile_append {p : Char → Bool} {s rest : List Char} (hs : ∀ c ∈ s, p c = true)
    (hrest : Stops p rest) : (s ++ rest).dropWhile p = rest := by
  rw [List.dropWhile_append_of_pos hs, hrest.dropWhile]

theorem ite_some_bind {α β : Type} {p : Prop} [Decidable p] (a : α) (f : α → Option β) :
    (if p then some a else none).bind f = if p then f a else none := by
  split <;> rfl

theorem ite_some_map {α β : Type} {p : Prop} [Decidable p] (a : α) (f : α → β) :
    (if p then some a else none).map f = if p then some (f a) else none := by
  split <;> rfl

/-- The characters that a number can go on with. -/
def isNumberChar (c : Char) : Bool := c.isDigit || c = '.'

/-- The digits of a number. -/
abbrev digits (n : ℕ) : List Char := Nat.toDigits 10 n

theorem isDigit_of_mem_digits {n : ℕ} {c : Char} (h : c ∈ digits n) : c.isDigit = true :=
  Nat.isDigit_of_mem_toDigits (by decide) (by decide) h

/-- The digits are read as the number if there are at most 15 of them. -/
theorem parseUnsigned_digits {n : ℕ} {rest : List Char} (h : Stops isNumberChar rest) :
    parseUnsigned false (digits n ++ rest) =
      if n < integerEnd then some (.integer n, rest) else none := by
  have hstops : Stops Char.isDigit rest := fun c hc =>
    (Bool.or_eq_false_iff.mp (h c hc)).1
  have hdot : rest.head? ≠ some '.' := by
    intro hhead
    exact absurd (h '.' hhead) (by decide)
  have hlength : (digits n).length ≤ 15 ↔ n < integerEnd :=
    Nat.length_toDigits_le_iff (by decide) (by decide)
  simp only [parseUnsigned, takeWhile_append (fun _ => isDigit_of_mem_digits) hstops,
    dropWhile_append (fun _ => isDigit_of_mem_digits) hstops, if_neg Nat.toDigits_ne_nil,
    if_neg hdot, Nat.ofDigitChars_ten_toDigits, hlength]
  rfl

/-- A number starts with a digit. -/
theorem exists_digits_eq_cons (n : ℕ) : ∃ c s, digits n = c :: s ∧ c.isDigit = true := by
  obtain ⟨c, s, hcons⟩ := List.exists_cons_of_ne_nil (Nat.toDigits_ne_nil (n := n) (b := 10))
  exact ⟨c, s, hcons, isDigit_of_mem_digits (hcons ▸ List.mem_cons_self)⟩

theorem ne_of_isDigit {c d : Char} (hc : c.isDigit = true) (hd : d.isDigit = false) : c ≠ d := by
  rintro rfl
  rw [hc] at hd
  exact absurd hd (by decide)

/-- The digits are a bare item if there are at most 15 of them. -/
theorem parseBareItem_digits {n : ℕ} {rest : List Char} (h : Stops isNumberChar rest) :
    parseBareItem (digits n ++ rest) =
      if n < integerEnd then some (.integer n, rest) else none := by
  obtain ⟨c, s, hcons, hc⟩ := exists_digits_eq_cons n
  rw [← parseUnsigned_digits h, hcons, List.cons_append, parseBareItem,
    if_neg (ne_of_isDigit hc rfl), if_pos hc]

/-! ## Parameters and entries with numbers -/

/-- A key. -/
def isKey (key : String) : Bool :=
  match key.toList with
  | [] => false
  | c :: s => isKeyStart c && s.all isKeyChar

/-- A key is read up to the first character that is not its own. -/
theorem parseKey_append {key : String} {rest : List Char} (h : isKey key = true)
    (hrest : Stops isKeyChar rest) : parseKey (key.toList ++ rest) = some (key, rest) := by
  unfold isKey at h
  split at h
  next => exact absurd h (by decide)
  next c s hkey =>
    rw [Bool.and_eq_true, List.all_eq_true] at h
    rw [hkey, List.cons_append, parseKey, if_pos h.1, takeWhile_append h.2 hrest,
      dropWhile_append h.2 hrest, ← hkey, String.ofList_toList]

/-- A key starts with none of the characters that start no key. -/
theorem isKey.stops {key : String} (h : isKey key = true) {p : Char → Bool}
    (hp : ∀ c, p c = true → isKeyStart c = false) (rest : List Char) :
    Stops p (key.toList ++ rest) := by
  unfold isKey at h
  split at h
  next => exact absurd h (by decide)
  next c s hkey =>
    rw [Bool.and_eq_true] at h
    rw [hkey]
    rintro d ⟨⟩
    by_contra hd
    rw [Bool.not_eq_false] at hd
    exact absurd (hp c hd) (by rw [h.1]; decide)

/-- White space starts no key. -/
theorem isKeyStart_of_isOws {c : Char} (h : isOws c = true) : isKeyStart c = false := by
  simp only [isOws, Bool.or_eq_true, decide_eq_true_eq] at h
  rcases h with rfl | rfl <;> rfl

theorem isOws_of_space {c : Char} (h : decide (c = ' ') = true) : isOws c = true := by
  simp [isOws, of_decide_eq_true h]

/-- A key with a number. -/
abbrev NumericEntry := String × ℕ

/-- Entries with literal keys. -/
theorem isKey_of_mem {es : List NumericEntry} (h : (es.map Prod.fst).all isKey = true) :
    ∀ e ∈ es, isKey e.1 = true := by
  intro e he
  exact List.all_eq_true.mp h e.1 (List.mem_map_of_mem he)

/-- The text `key=n`. -/
def NumericEntry.text (e : NumericEntry) : List Char := e.1.toList ++ '=' :: digits e.2

/-- The key of an entry is read up to the equals sign. -/
theorem parseKey_text {e : NumericEntry} (hkey : isKey e.1 = true) (rest : List Char) :
    parseKey (e.text ++ rest) = some (e.1, '=' :: (digits e.2 ++ rest)) := by
  have hstops : Stops isKeyChar ('=' :: (digits e.2 ++ rest)) := by
    rintro c ⟨⟩
    rfl
  have htext : e.text ++ rest = e.1.toList ++ '=' :: (digits e.2 ++ rest) := by
    simp [NumericEntry.text]
  rw [htext, parseKey_append hkey hstops]

/-- White space does not start an entry. -/
theorem stops_text {e : NumericEntry} (hkey : isKey e.1 = true) {p : Char → Bool}
    (hp : ∀ c, p c = true → isOws c = true) (rest : List Char) : Stops p (e.text ++ rest) := by
  rw [NumericEntry.text, List.append_assoc]
  exact isKey.stops hkey (fun c hc => isKeyStart_of_isOws (hp c hc)) _

theorem exists_text_eq_cons (e : NumericEntry) (rest : List Char) :
    ∃ c s, e.text ++ rest = c :: s :=
  List.exists_cons_of_ne_nil (by simp [NumericEntry.text])

theorem parseParameters_nil (n : ℕ) (before : Parameters) :
    parseParameters n before [] = some (before, []) := by
  cases n <;> rfl

/-- No further parameter. -/
theorem parseParameters_stops {rest : List Char} (h : Stops (· = ';') rest) (n : ℕ)
    (before : Parameters) : parseParameters n before rest = some (before, rest) := by
  cases rest with
  | nil => exact parseParameters_nil n before
  | cons c rest =>
    have hc : c ≠ ';' := by simpa using h c rfl
    cases n with
    | zero => exact if_neg hc
    | succ n => exact if_neg hc

/-- A parameter with a number is read if the number is not too long. -/
theorem parseParameters_entry {e : NumericEntry} (hkey : isKey e.1 = true) {rest : List Char}
    (hrest : Stops isNumberChar rest) (n : ℕ) (before : Parameters) :
    parseParameters (n + 1) before (';' :: (e.text ++ rest)) =
      if e.2 < integerEnd then parseParameters n (upsert before e.1 (.integer e.2)) rest
      else none := by
  rw [parseParameters, if_pos rfl, (stops_text hkey (fun _ => isOws_of_space) rest).dropWhile,
    parseKey_text hkey]
  show ((parseBareItem (digits e.2 ++ rest)).bind fun (value, rest) =>
    parseParameters n (upsert before e.1 value) rest) = _
  rw [parseBareItem_digits hrest, ite_some_bind]

/-- The text of parameters with numbers. -/
def parametersText (es : List NumericEntry) : List Char := es.flatMap fun e => ';' :: e.text

/-- The parameters, added to those before. -/
def addParameters (before : Parameters) (es : List NumericEntry) : Parameters :=
  es.foldl (fun values e => upsert values e.1 (.integer e.2)) before

theorem parametersText_cons (e : NumericEntry) (es : List NumericEntry) :
    parametersText (e :: es) = ';' :: (e.text ++ parametersText es) := rfl

/-- The text of parameters goes on with a semicolon, if at all. -/
theorem stops_parametersText (es : List NumericEntry) : Stops isNumberChar (parametersText es) := by
  intro c hc
  cases es with
  | nil => exact absurd hc (by simp [parametersText])
  | cons e es =>
    obtain rfl : ';' = c := Option.some.inj hc
    rfl

theorem length_le_parametersText (es : List NumericEntry) :
    es.length ≤ (parametersText es).length := by
  induction es with
  | nil => exact Nat.le_refl _
  | cons e es ih =>
    rw [parametersText_cons, List.length_cons, List.length_cons, List.length_append]
    omega

/-- **Parameters with numbers are read exactly if no number is too long.** -/
theorem parseParameters_entries {es : List NumericEntry} (hkeys : ∀ e ∈ es, isKey e.1 = true)
    {n : ℕ} (hn : es.length ≤ n) (before : Parameters) :
    parseParameters n before (parametersText es) =
      if ∀ e ∈ es, e.2 < integerEnd then some (addParameters before es, []) else none := by
  induction es generalizing n before with
  | nil => rw [if_pos (by simp)]; exact parseParameters_nil n before
  | cons e es ih =>
    obtain ⟨n, rfl⟩ : ∃ m, n = m + 1 := ⟨n - 1, by rw [List.length_cons] at hn; omega⟩
    have htail := ih (fun e' he' => hkeys e' (List.mem_cons_of_mem _ he'))
      (Nat.le_of_succ_le_succ hn) (upsert before e.1 (.integer e.2))
    rw [parametersText_cons, parseParameters_entry (hkeys e List.mem_cons_self)
      (stops_parametersText es), htail]
    simp only [List.forall_mem_cons, ite_and]
    rfl

/-! ## Items -/

/-- A number with parameters is an item if none of the numbers is too long. -/
theorem parseItem_digits {es : List NumericEntry} (hkeys : ∀ e ∈ es, isKey e.1 = true) (n : ℕ) :
    parseItem (digits n ++ parametersText es) =
      if n < integerEnd ∧ ∀ e ∈ es, e.2 < integerEnd then
        some (⟨.integer n, addParameters [] es⟩, [])
      else none := by
  rw [parseItem, parseBareItem_digits (stops_parametersText es), ite_some_bind, ite_and]
  show (if n < integerEnd then
    (parseParameters (parametersText es).length [] (parametersText es)).map _ else none) = _
  rw [parseParameters_entries hkeys (length_le_parametersText es), ite_some_map]

/-- A field that does not start with a space is read from its start. -/
theorem fieldChars_eq {text : String} {s : List Char} (h : text.toList = s)
    (hs : Stops (· = ' ') s) : fieldChars text = s := by
  rw [fieldChars, h]
  exact hs.dropWhile

/-- Digits start with none of the characters that are not digits. -/
theorem stops_digits {p : Char → Bool} (hp : ∀ c, p c = true → c.isDigit = false) (n : ℕ)
    (rest : List Char) : Stops p (digits n ++ rest) := by
  obtain ⟨c, s, hcons, hc⟩ := exists_digits_eq_cons n
  rw [hcons]
  rintro d ⟨⟩
  by_contra hd
  rw [Bool.not_eq_false] at hd
  rw [hp c hd] at hc
  exact absurd hc (by decide)

/-- **A number with parameters, as a field.** -/
theorem parseItemField_digits {es : List NumericEntry} {n : ℕ} {text : String}
    (htext : text.toList = digits n ++ parametersText es) (hkeys : ∀ e ∈ es, isKey e.1 = true) :
    parseItemField text =
      if n < integerEnd ∧ ∀ e ∈ es, e.2 < integerEnd then
        some ⟨.integer n, addParameters [] es⟩
      else none := by
  have hspace : ∀ c : Char, decide (c = ' ') = true → c.isDigit = false := by
    intro c hc
    obtain rfl : c = ' ' := of_decide_eq_true hc
    rfl
  rw [parseItemField, fieldChars_eq htext (stops_digits hspace n _), parseItem_digits hkeys]
  rw [ite_some_bind]
  rfl

/-! ## Dictionaries of numbers -/

/-- A member that is not an inner list is an item. -/
theorem parseMember_item {c : Char} (h : c ≠ '(') (s : List Char) :
    parseMember (c :: s) = (parseItem (c :: s)).map fun (item, rest) => (.item item, rest) := by
  unfold parseMember
  split
  next heq => exact absurd (List.cons.inj heq).1 h
  next => rfl

/-- The further entries of a dictionary. -/
def furtherText (es : List NumericEntry) : List Char := es.flatMap fun e => ',' :: ' ' :: e.text

theorem furtherText_cons (e : NumericEntry) (es : List NumericEntry) :
    furtherText (e :: es) = ',' :: ' ' :: (e.text ++ furtherText es) := rfl

/-- The entries, added to those before. -/
def addEntries (before : List (String × Member)) (es : List NumericEntry) :
    List (String × Member) :=
  es.foldl (fun values e => upsert values e.1 (.item ⟨.integer e.2, []⟩)) before

/-- The further entries go on with a comma, if at all. -/
theorem stops_furtherText {p : Char → Bool} (hp : p ',' = false) (es : List NumericEntry) :
    Stops p (furtherText es) := by
  intro c hc
  cases es with
  | nil => exact absurd hc (by simp [furtherText])
  | cons e es =>
    obtain rfl : ',' = c := Option.some.inj hc
    exact hp

/-- The value of an entry is read if the number is not too long. -/
theorem parseMember_digits {n : ℕ} {rest : List Char} (hrest : Stops isNumberChar rest)
    (hsemi : Stops (· = ';') rest) :
    parseMember (digits n ++ rest) =
      if n < integerEnd then some (.item ⟨.integer n, []⟩, rest) else none := by
  obtain ⟨c, s, hcons, hc⟩ := exists_digits_eq_cons n
  rw [hcons, List.cons_append, parseMember_item (ne_of_isDigit hc rfl), ← List.cons_append, ← hcons,
    parseItem, parseBareItem_digits hrest]
  rw [ite_some_bind]
  show Option.map _ (if n < integerEnd then
    (parseParameters rest.length [] rest).map _ else none) = _
  rw [parseParameters_stops hsemi, Option.map_some, ite_some_map]

theorem parseEntries_nil (n : ℕ) (before : List (String × Member)) :
    parseEntries n before [] = some before := by
  cases n <;> rfl

/-- An entry with a number is read if the number is not too long. -/
theorem parseEntries_entry {e : NumericEntry} (hkey : isKey e.1 = true) {rest : List Char}
    (hrest : Stops isNumberChar rest) (hsemi : Stops (· = ';') rest) (n : ℕ)
    (before : List (String × Member)) :
    parseEntries (n + 1) before (e.text ++ rest) =
      if e.2 < integerEnd then
        (parseSeparator rest).bind
          (parseEntries n (upsert before e.1 (.item ⟨.integer e.2, []⟩)))
      else none := by
  obtain ⟨c, s, hcons⟩ := exists_text_eq_cons e rest
  rw [hcons, parseEntries, ← hcons, parseKey_text hkey]
  show ((parseMember (digits e.2 ++ rest)).bind fun (member, rest) =>
    (parseSeparator rest).bind fun rest => parseEntries n (upsert before e.1 member) rest) = _
  rw [parseMember_digits hrest hsemi, ite_some_bind]

/-- What follows an entry is read up to the next one. -/
theorem parseSeparator_furtherText {e : NumericEntry} (hkey : isKey e.1 = true)
    (es : List NumericEntry) :
    parseSeparator (furtherText (e :: es)) = some (e.text ++ furtherText es) := by
  obtain ⟨c, s, hcons⟩ := exists_text_eq_cons e (furtherText es)
  rw [furtherText_cons]
  show (match (e.text ++ furtherText es).dropWhile isOws with
    | [] => none
    | rest => some rest) = _
  rw [(stops_text hkey (fun _ hc => hc) _).dropWhile, hcons]

/-- **A dictionary of numbers is read exactly if no number is too long.** -/
theorem parseEntries_entries {e : NumericEntry} {es : List NumericEntry}
    (hkeys : ∀ e' ∈ e :: es, isKey e'.1 = true) {n : ℕ} (hn : es.length < n)
    (before : List (String × Member)) :
    parseEntries n before (e.text ++ furtherText es) =
      if ∀ e' ∈ e :: es, e'.2 < integerEnd then some (addEntries before (e :: es)) else none := by
  induction es generalizing e n before with
  | nil =>
    obtain ⟨n, rfl⟩ : ∃ m, n = m + 1 := ⟨n - 1, by omega⟩
    rw [parseEntries_entry (hkeys e List.mem_cons_self) (stops_furtherText rfl [])
      (stops_furtherText rfl [])]
    show (if e.2 < integerEnd then parseEntries n _ [] else none) = _
    simp only [parseEntries_nil, List.forall_mem_singleton]
    rfl
  | cons e' es ih =>
    obtain ⟨n, rfl⟩ : ∃ m, n = m + 1 := ⟨n - 1, by omega⟩
    have hkeys' : ∀ e'' ∈ e' :: es, isKey e''.1 = true :=
      fun e'' he'' => hkeys e'' (List.mem_cons_of_mem _ he'')
    rw [parseEntries_entry (hkeys e List.mem_cons_self) (stops_furtherText rfl _)
      (stops_furtherText rfl _), parseSeparator_furtherText (hkeys' e' List.mem_cons_self) es]
    show (if e.2 < integerEnd then parseEntries n _ (e'.text ++ furtherText es) else none) = _
    rw [ih hkeys' (by rw [List.length_cons] at hn; omega)]
    simp only [List.forall_mem_cons, ite_and]
    rfl

theorem length_le_furtherText (es : List NumericEntry) : es.length ≤ (furtherText es).length := by
  induction es with
  | nil => exact Nat.le_refl _
  | cons e es ih =>
    rw [furtherText_cons, List.length_cons, List.length_cons, List.length_cons, List.length_append]
    omega

/-- **A dictionary of numbers, as a field.** -/
theorem parseDictionaryField_entries {e : NumericEntry} {es : List NumericEntry} {text : String}
    (htext : text.toList = e.text ++ furtherText es)
    (hkeys : ∀ e' ∈ e :: es, isKey e'.1 = true) :
    parseDictionaryField text =
      if ∀ e' ∈ e :: es, e'.2 < integerEnd then some (addEntries [] (e :: es)) else none := by
  have hstops : Stops (· = ' ') (e.text ++ furtherText es) :=
    stops_text (hkeys e List.mem_cons_self) (fun _ => isOws_of_space) _
  have hlength : es.length < (e.text ++ furtherText es).length := by
    have := length_le_furtherText es
    rw [List.length_append, NumericEntry.text, List.length_append, List.length_cons]
    omega
  rw [parseDictionaryField, fieldChars_eq htext hstops, parseEntries_entries hkeys hlength]

/-! ## Lists with one named item -/

/-- A character that stands for itself in a string. -/
def isPlain (c : Char) : Bool := isPrintable c && !isEscaped c

theorem escape_eq_self {t : List Char} (h : t.all (fun c => !isEscaped c) = true) :
    escape t = t := by
  induction t with
  | nil => rfl
  | cons c t ih =>
    rw [List.all_cons, Bool.and_eq_true, Bool.not_eq_true'] at h
    rw [escape_cons_of_plain h.1, ih h.2]

theorem all_isPlain (t : List Char) :
    t.all isPlain = (t.all isPrintable && t.all fun c => !isEscaped c) := by
  induction t with
  | nil => rfl
  | cons c t ih =>
    simp only [List.all_cons, ih, isPlain]
    ac_rfl

/-- **A string is read back from its own text exactly if every character stands for itself.** -/
theorem parseStringBody_self_iff {t tail rest : List Char} :
    parseStringBody (t ++ '\"' :: tail) = some (t, rest) ↔ t.all isPlain = true ∧ rest = tail := by
  rw [all_isPlain, Bool.and_eq_true]
  constructor
  · intro h
    obtain ⟨heq, hprintable⟩ := eq_escape_of_parseStringBody h
    have hplain := not_escaped_of_append heq
    rw [escape_eq_self hplain] at heq
    exact ⟨⟨hprintable, hplain⟩, (List.cons.inj (List.append_cancel_left heq)).2.symm⟩
  · rintro ⟨⟨hprintable, hplain⟩, rfl⟩
    have hescape := parseStringBody_escape hprintable rest
    rwa [escape_eq_self hplain] at hescape

/-- A string item. -/
theorem parseItem_string (s : List Char) :
    parseItem ('\"' :: s) = (parseStringBody s).bind fun (t, rest) =>
      (parseParameters rest.length [] rest).map fun (parameters, rest) =>
        (⟨.string (String.ofList t), parameters⟩, rest) := by
  have hbare : parseBareItem ('\"' :: s) =
      (parseStringBody s).map fun x => (.string (String.ofList x.1), x.2) := rfl
  rw [parseItem, hbare, Option.bind_map]
  rfl

/-- A string with parameters is read back as itself exactly if every character of it stands for
itself and no number is too long. -/
theorem parseItem_string_iff {es : List NumericEntry} (hkeys : ∀ e ∈ es, isKey e.1 = true)
    {name : String} {rest : List Char} :
    parseItem ('\"' :: (name.toList ++ '\"' :: parametersText es)) =
        some (⟨.string name, addParameters [] es⟩, rest) ↔
      name.toList.all isPlain = true ∧ (∀ e ∈ es, e.2 < integerEnd) ∧ rest = [] := by
  have hparameters := parseParameters_entries hkeys (length_le_parametersText es) []
  rw [parseItem_string]
  constructor
  · intro h
    obtain ⟨⟨t, tail⟩, hbody, h⟩ := Option.bind_eq_some_iff.mp h
    obtain ⟨⟨parameters, rest'⟩, htail, heq⟩ := Option.map_eq_some_iff.mp h
    obtain ⟨hitem, rfl⟩ := Prod.mk.inj heq
    have ht : t = name.toList := by
      rw [← BareItem.string.inj (congrArg Item.value hitem), String.toList_ofList]
    subst ht
    obtain ⟨hplain, rfl⟩ := parseStringBody_self_iff.mp hbody
    by_cases hfits : ∀ e ∈ es, e.2 < integerEnd
    · rw [hparameters, if_pos hfits] at htail
      exact ⟨hplain, hfits, (Prod.mk.inj (Option.some.inj htail)).2.symm⟩
    · rw [hparameters, if_neg hfits] at htail
      exact absurd htail (by simp)
  · rintro ⟨hplain, hfits, rfl⟩
    rw [parseStringBody_self_iff.mpr ⟨hplain, rfl⟩]
    show (parseParameters _ [] (parametersText es)).map _ = _
    rw [hparameters, if_pos hfits, Option.map_some, String.ofList_toList]

/-- The members read before stay. -/
theorem exists_append_of_parseMembers {n : ℕ} {before members : List Member} {s : List Char}
    (h : parseMembers n before s = some members) : ∃ more, members = before ++ more := by
  induction n generalizing before s with
  | zero =>
    cases s with
    | nil => exact ⟨[], by rw [List.append_nil]; exact (Option.some.inj h).symm⟩
    | cons c s => exact absurd h (by simp [parseMembers])
  | succ n ih =>
    cases s with
    | nil => exact ⟨[], by rw [List.append_nil]; exact (Option.some.inj h).symm⟩
    | cons c s =>
      obtain ⟨⟨member, rest⟩, -, h⟩ := Option.bind_eq_some_iff.mp h
      obtain ⟨rest', -, h⟩ := Option.bind_eq_some_iff.mp h
      obtain ⟨more, rfl⟩ := ih h
      exact ⟨member :: more, by simp⟩

/-- **A list of one string with parameters, as a field.** -/
theorem parseListField_string_iff {es : List NumericEntry} {name text : String}
    (htext : text.toList = '\"' :: (name.toList ++ '\"' :: parametersText es))
    (hkeys : ∀ e ∈ es, isKey e.1 = true) :
    parseListField text = some [.item ⟨.string name, addParameters [] es⟩] ↔
      name.toList.all isPlain = true ∧ ∀ e ∈ es, e.2 < integerEnd := by
  have hstops : Stops (· = ' ') ('\"' :: (name.toList ++ '\"' :: parametersText es)) := by
    rintro c ⟨⟩
    rfl
  rw [parseListField, fieldChars_eq htext hstops, List.length_cons, parseMembers,
    parseMember_item (by decide)]
  constructor
  · intro h
    obtain ⟨⟨member, rest⟩, hmember, h⟩ := Option.bind_eq_some_iff.mp h
    obtain ⟨rest', -, h⟩ := Option.bind_eq_some_iff.mp h
    obtain ⟨more, heq⟩ := exists_append_of_parseMembers h
    obtain ⟨rfl, -⟩ := List.cons.inj heq
    obtain ⟨⟨item, rest''⟩, hitem, heq⟩ := Option.map_eq_some_iff.mp hmember
    obtain ⟨hvalue, rfl⟩ := Prod.mk.inj heq
    rw [Member.item.inj hvalue] at hitem
    obtain ⟨hplain, hfits, -⟩ := (parseItem_string_iff hkeys).mp hitem
    exact ⟨hplain, hfits⟩
  · rintro ⟨hplain, hfits⟩
    rw [(parseItem_string_iff hkeys).mpr ⟨hplain, hfits, rfl⟩]
    cases (name.toList ++ '\"' :: parametersText es).length <;> rfl

end StructuredFields
