import Mathlib.Data.List.Basic
import Mathlib.Data.Nat.Init

/-!
# IP addresses and their text

`std::net::IpAddr` with its `Display` implementation: four decimal octets for IPv4, and for IPv6
hexadecimal segments with the first longest run of zeros left out, or the decimal form after
`::ffff:` for an IPv4 address mapped into IPv6. The text tells the address (`IpAddr.display_inj`).

Splitting the text at its colons gives the digits of the segments back, with an empty piece where
the run was (`splitOn_compressed`).
-/

namespace Rust

/-! ## Digits -/

section Digits

variable {b : ℕ} (hb : 1 < b) (hb' : b ≤ 16)

/-- The first sixteen digits are different characters. -/
theorem digitChar_inj {m n : ℕ} (hm : m < 16) (hn : n < 16) (h : m.digitChar = n.digitChar) :
    m = n := by
  have hall : ∀ i j : Fin 16, i.val.digitChar = j.val.digitChar → i = j := by decide
  exact Fin.val_eq_of_eq (hall ⟨m, hm⟩ ⟨n, hn⟩ h)

include hb in
theorem exists_digitChar_of_mem {n : ℕ} {c : Char} (hc : c ∈ Nat.toDigits b n) :
    ∃ d < b, c = d.digitChar := by
  induction n using Nat.strongRecOn with
  | ind n ih =>
    rw [Nat.toDigits_eq_if hb] at hc
    split at hc
    next hlt => exact ⟨n, hlt, List.mem_singleton.mp hc⟩
    next hge =>
      rcases List.mem_append.mp hc with hc | hc
      · exact ih (n / b) (Nat.div_lt_self (by omega) hb) hc
      · exact ⟨n % b, Nat.mod_lt n (by omega), List.mem_singleton.mp hc⟩

include hb hb' in
/-- Digits tell the number. -/
theorem toDigits_inj {m n : ℕ} (h : Nat.toDigits b m = Nat.toDigits b n) : m = n := by
  induction m using Nat.strongRecOn generalizing n with
  | ind m ih =>
    -- a number below the base has one digit and any other number at least two
    have hlong : ∀ {k d : ℕ} {c : Char}, [c] ≠ Nat.toDigits b k ++ [d.digitChar] := by
      intro k d c heq
      have hlength := congrArg List.length heq
      have hpos := Nat.length_toDigits_pos (b := b) (n := k)
      simp only [List.length_singleton, List.length_append] at hlength
      omega
    rw [Nat.toDigits_eq_if hb (n := m), Nat.toDigits_eq_if hb (n := n)] at h
    split at h
    next hm =>
      split at h
      next hn => exact digitChar_inj (by omega) (by omega) (List.singleton_inj.mp h)
      next => exact absurd h hlong
    next hm =>
      split at h
      next => exact absurd h.symm hlong
      next hn =>
        -- the last digits agree, and the numbers before them by induction
        obtain ⟨hinit, hlast⟩ := List.append_inj' h rfl
        have hdiv := ih (m / b) (Nat.div_lt_self (by omega) hb) hinit
        have hmod : m % b = n % b := by
          have hm := Nat.mod_lt m (show 0 < b by omega)
          have hn := Nat.mod_lt n (show 0 < b by omega)
          exact digitChar_inj (by omega) (by omega) (List.singleton_inj.mp hlast)
        rw [← Nat.div_add_mod m b, ← Nat.div_add_mod n b, hdiv, hmod]

end Digits

/-! ## Numbers between separators -/

/-- The digits of some numbers, with a separator between them. -/
def joined (sep : Char) (base : ℕ) (numbers : List ℕ) : List Char :=
  [sep].intercalate (numbers.map (Nat.toDigits base))

/-- What is between the separators. No numbers leave one empty piece. -/
def pieces (base : ℕ) (numbers : List ℕ) : List (List Char) :=
  if numbers = [] then [[]] else numbers.map (Nat.toDigits base)

section Joined

variable {sep : Char} {base : ℕ}

theorem nil_notMem_map_toDigits (numbers : List ℕ) : [] ∉ numbers.map (Nat.toDigits base) := by
  intro h
  obtain ⟨n, -, hn⟩ := List.mem_map.mp h
  exact Nat.toDigits_ne_nil hn

variable (hbase : 1 < base) (hbase' : base ≤ 16)

include hbase hbase' in
theorem map_toDigits_inj {l l' : List ℕ}
    (h : l.map (Nat.toDigits base) = l'.map (Nat.toDigits base)) : l = l' :=
  List.map_injective_iff.mpr (fun _ _ => toDigits_inj hbase hbase') h

include hbase hbase' in
theorem pieces_inj {l l' : List ℕ} (h : pieces base l = pieces base l') : l = l' := by
  have hne : ∀ l : List ℕ, [[]] ≠ l.map (Nat.toDigits base) := by
    intro l heq
    exact nil_notMem_map_toDigits l (heq ▸ List.mem_singleton_self [])
  unfold pieces at h
  split at h
  next hl =>
    split at h
    next hl' => rw [hl, hl']
    next => exact absurd h (hne l')
  next hl =>
    split at h
    next => exact absurd h.symm (hne l)
    next => exact map_toDigits_inj hbase hbase' h

variable (hsep : ∀ d < base, d.digitChar ≠ sep)

include hbase hsep in
theorem sep_notMem_toDigits (n : ℕ) : sep ∉ Nat.toDigits base n := by
  intro h
  obtain ⟨d, hd, heq⟩ := exists_digitChar_of_mem hbase h
  exact hsep d hd heq.symm

include hbase hsep in
theorem splitOn_joined (numbers : List ℕ) :
    (joined sep base numbers).splitOn sep = pieces base numbers := by
  unfold pieces
  split
  next h =>
    rw [h]
    rfl
  next h =>
    refine List.splitOn_intercalate sep ?_ (by simpa using h)
    intro piece hpiece
    obtain ⟨n, -, rfl⟩ := List.mem_map.mp hpiece
    exact sep_notMem_toDigits hbase hsep n

include hbase hbase' hsep in
theorem joined_inj {l l' : List ℕ} (h : joined sep base l = joined sep base l') : l = l' := by
  have hpieces := congrArg (List.splitOn sep) h
  rw [splitOn_joined hbase hsep, splitOn_joined hbase hsep] at hpieces
  exact pieces_inj hbase hbase' hpieces

include hbase hsep in
/-- Two separators in a row leave an empty piece. -/
theorem splitOn_compressed (before after : List ℕ) :
    (joined sep base before ++ [sep, sep] ++ joined sep base after).splitOn sep =
      pieces base before ++ [] :: pieces base after := by
  have hafter := List.splitOn_append_cons_self (a := sep) [] (joined sep base after)
  rw [List.nil_append, List.splitOn_nil, splitOn_joined hbase hsep] at hafter
  rw [List.append_assoc, List.cons_append, List.cons_append, List.nil_append,
    List.splitOn_append_cons_self, splitOn_joined hbase hsep, hafter, List.singleton_append]

include hbase hbase' in
/-- The first empty piece is where the numbers were left out, also at the ends. -/
theorem compressed_inj {before after before' after' : List ℕ}
    (h : pieces base before ++ [] :: pieces base after =
      pieces base before' ++ [] :: pieces base after') : before = before' ∧ after = after' := by
  have hstart : ∀ {l : List ℕ} {rest rest' : List (List Char)},
      [] :: rest = l.map (Nat.toDigits base) ++ [] :: rest' → l = [] := by
    intro l rest rest' heq
    cases l with
    | nil => rfl
    | cons n l => exact absurd (List.cons.inj heq).1.symm Nat.toDigits_ne_nil
  have hfirst : ∀ (l : List ℕ) (rest : List (List Char)),
      (l.map (Nat.toDigits base) ++ [] :: rest).takeWhile (· ≠ []) = l.map (Nat.toDigits base) := by
    intro l rest
    rw [List.takeWhile_append_of_pos, List.takeWhile_cons_of_neg (by simp), List.append_nil]
    intro piece hpiece
    exact decide_eq_true fun hnil => nil_notMem_map_toDigits l (hnil ▸ hpiece)
  by_cases hb : before = []
  · by_cases hb' : before' = []
    · rw [hb, hb'] at h ⊢
      exact ⟨rfl, pieces_inj hbase hbase' (List.cons.inj (List.append_cancel_left h)).2⟩
    · rw [hb, pieces, if_pos rfl, pieces.eq_1 base before', if_neg hb'] at h
      exact absurd (hstart h) hb'
  · by_cases hb' : before' = []
    · rw [hb', pieces.eq_1 base [], if_pos rfl, pieces.eq_1 base before, if_neg hb] at h
      exact absurd (hstart h.symm) hb
    · rw [pieces.eq_1 base before, if_neg hb, pieces.eq_1 base before', if_neg hb'] at h
      have hwhile := congrArg (List.takeWhile (· ≠ [])) h
      rw [hfirst, hfirst] at hwhile
      obtain rfl := map_toDigits_inj hbase hbase' hwhile
      exact ⟨rfl, pieces_inj hbase hbase' (List.cons.inj (List.append_cancel_left h)).2⟩

/-- The characters of a joined text. -/
theorem mem_joined {numbers : List ℕ} {c : Char} (hc : c ∈ joined sep base numbers) :
    c = sep ∨ ∃ n, c ∈ Nat.toDigits base n := by
  induction numbers with
  | nil => exact absurd hc List.not_mem_nil
  | cons n numbers ih =>
    cases numbers with
    | nil =>
      refine .inr ⟨n, ?_⟩
      simpa [joined] using hc
    | cons m numbers =>
      have hcons : joined sep base (n :: m :: numbers) =
          Nat.toDigits base n ++ sep :: joined sep base (m :: numbers) := by
        simp [joined, List.intercalate_cons_cons]
      rw [hcons] at hc
      rcases List.mem_append.mp hc with hc | hc
      · exact .inr ⟨n, hc⟩
      · rcases List.mem_cons.mp hc with hc | hc
        · exact .inl hc
        · exact ih hc

end Joined

/-! ## The longest run of zeros -/

/-- A part of an address: its first position and its length. -/
structure Span where
  start : ℕ
  len : ℕ

/-- One more zero, at position `i`. -/
def Span.extend (current : Span) (i : ℕ) : Span where
  start := if current.len = 0 then i else current.start
  len := current.len + 1

/-- The loop that looks for the first longest run of zeros, from position `i` on. `current` is the
run that ends before `i`. -/
def zeroesLoop : ℕ → Span → Span → List UInt16 → Span
  | _, longest, _, [] => longest
  | i, longest, current, segment :: rest =>
      if segment = 0 then
        let current := current.extend i
        zeroesLoop (i + 1) (if current.len > longest.len then current else longest) current rest
      else zeroesLoop (i + 1) longest ⟨0, 0⟩ rest

/-- The first longest run of zeros. -/
def zeroes (segments : List UInt16) : Span := zeroesLoop 0 ⟨0, 0⟩ ⟨0, 0⟩ segments

/-- The span holds zeros only. -/
def Span.Zero (segments : List UInt16) (span : Span) : Prop :=
  ∀ j, span.start ≤ j → j < span.start + span.len → segments[j]? = some 0

theorem Span.zero_empty (segments : List UInt16) : Span.Zero segments ⟨0, 0⟩ := by
  intro j _ hhigh
  exact absurd hhigh (Nat.not_lt_zero j)

section Loop

variable {segments : List UInt16} {i : ℕ} {longest current : Span}

/-- The run ends before position `i`. -/
def Span.EndsAt (span : Span) (i : ℕ) : Prop := span.len = 0 ∨ span.start + span.len = i

theorem Span.EndsAt.extend (h : current.EndsAt i) :
    (current.extend i).start + current.len = i := by
  unfold Span.extend
  dsimp only
  rcases h with h | h
  · rw [if_pos h, h]
    rfl
  · by_cases hlen : current.len = 0
    · rw [if_pos hlen, hlen]
      rfl
    · rw [if_neg hlen]
      exact h

theorem Span.Zero.extend (h : current.Zero segments) (hend : current.EndsAt i)
    (hat : segments[i]? = some 0) : (current.extend i).Zero segments := by
  intro j hlow hhigh
  have hstart := hend.extend
  have hlen : (current.extend i).len = current.len + 1 := rfl
  by_cases hj : j = i
  · rw [hj, hat]
  · -- an earlier position belongs to the run before
    have hne : current.len ≠ 0 := by omega
    have hsame : (current.extend i).start = current.start := if_neg hne
    refine h j ?_ ?_
    · omega
    · omega

/-- The loop keeps both runs runs of zeros, the current one up to the position it has reached. -/
theorem zero_zeroesLoop (rest : List UInt16) (hrest : segments.drop i = rest)
    (hlongest : longest.Zero segments) (hcurrent : current.Zero segments)
    (hend : current.EndsAt i) : (zeroesLoop i longest current rest).Zero segments := by
  induction rest generalizing i longest current with
  | nil => exact hlongest
  | cons segment rest ih =>
    have hnext : segments.drop (i + 1) = rest := by
      rw [← List.drop_drop, hrest]
      rfl
    have hat : segments[i]? = some segment := by
      rw [← List.head?_drop, hrest]
      rfl
    rw [zeroesLoop]
    split
    next hzero =>
      have hextended := hcurrent.extend hend (hzero ▸ hat)
      refine ih hnext ?_ hextended (.inr ?_)
      · split
        · exact hextended
        · exact hlongest
      · have hstart := hend.extend
        show _ + (current.len + 1) = i + 1
        omega
    next => exact ih hnext hlongest (Span.zero_empty segments) (.inl rfl)

end Loop

theorem zero_zeroes (segments : List UInt16) : (zeroes segments).Zero segments :=
  zero_zeroesLoop segments rfl (Span.zero_empty segments) (Span.zero_empty segments) (.inl rfl)

/-- The list without a run of zeros and the run's length make the list. -/
theorem Span.Zero.split {segments : List UInt16} {span : Span} (h : span.Zero segments)
    (hlen : 0 < span.len) :
    segments = segments.take span.start ++ List.replicate span.len 0 ++
      segments.drop (span.start + span.len) := by
  have hle : span.start + span.len ≤ segments.length := by
    have hlast := h (span.start + span.len - 1) (by omega) (by omega)
    have hlt := (List.getElem?_eq_some_iff.mp hlast).1
    omega
  have hrun : (segments.drop span.start).take span.len = List.replicate span.len 0 := by
    rw [List.eq_replicate_iff]
    refine ⟨by rw [List.length_take, List.length_drop]; omega, fun segment hsegment => ?_⟩
    obtain ⟨j, hj⟩ := List.mem_iff_getElem?.mp hsegment
    rw [List.getElem?_take] at hj
    split at hj
    · rw [List.getElem?_drop, h _ (by omega) (by omega)] at hj
      exact (Option.some.inj hj).symm
    · exact absurd hj (by simp)
  rw [← hrun, ← List.drop_drop, List.append_assoc, List.take_append_drop, List.take_append_drop]

/-! ## Addresses -/

/-- `std::net::Ipv4Addr`. -/
@[ext]
structure Ipv4Addr where
  octets : List UInt8
  length : octets.length = 4
deriving DecidableEq

/-- `std::net::Ipv6Addr`, by its segments of sixteen bits. -/
@[ext]
structure Ipv6Addr where
  segments : List UInt16
  length : segments.length = 8
deriving DecidableEq

/-- `std::net::IpAddr`. -/
inductive IpAddr where
  | v4 (address : Ipv4Addr)
  | v6 (address : Ipv6Addr)
deriving DecidableEq

/-- `Display` of an IPv4 address. -/
def Ipv4Addr.display (a : Ipv4Addr) : List Char := joined '.' 10 (a.octets.map (·.toNat))

namespace Ipv6Addr

/-- The two octets of a segment. -/
def octetsOf (segment : UInt16) : List UInt8 := [(segment >>> 8).toUInt8, segment.toUInt8]

/-- `to_ipv4_mapped`: the IPv4 address of `::ffff:a.b.c.d`. -/
def toIpv4Mapped (a : Ipv6Addr) : Option Ipv4Addr :=
  if a.segments.take 6 = [0, 0, 0, 0, 0, 0xffff] then
    some ⟨(a.segments.drop 6).flatMap octetsOf, by
      simp [List.length_flatMap, octetsOf, a.length]⟩
  else none

/-- `fmt_subslice`: segments in hexadecimal with colons between them. -/
def fmtSubslice (chunk : List UInt16) : List Char := joined ':' 16 (chunk.map (·.toNat))

/-- `Display` of an IPv6 address. -/
def display (a : Ipv6Addr) : List Char :=
  match a.toIpv4Mapped with
  | some ipv4 => "::ffff:".toList ++ ipv4.display
  | none =>
      let zeroes := zeroes a.segments
      if zeroes.len > 1 then
        fmtSubslice (a.segments.take zeroes.start) ++ "::".toList ++
          fmtSubslice (a.segments.drop (zeroes.start + zeroes.len))
      else fmtSubslice a.segments

end Ipv6Addr

/-- `Display` of an address. -/
def IpAddr.display : IpAddr → String
  | .v4 a => String.ofList a.display
  | .v6 a => String.ofList a.display

example : (IpAddr.v6 ⟨[0x2001, 0xdb8, 0, 0, 1, 0, 0, 1], rfl⟩).display = "2001:db8::1:0:0:1" := by
  decide

example : (IpAddr.v6 ⟨[0, 0, 0, 0, 0, 0xffff, 0xc000, 0x201], rfl⟩).display = "::ffff:192.0.2.1" := by
  decide

/-! ## The text tells the address -/

theorem map_toNat_inj16 {l l' : List UInt16} (h : l.map (·.toNat) = l'.map (·.toNat)) : l = l' :=
  List.map_injective_iff.mpr (fun _ _ => UInt16.toNat_inj.mp) h

theorem colon_ne_digitChar : ∀ d < 16, d.digitChar ≠ ':' := by decide

theorem dot_ne_digitChar : ∀ d < 16, d.digitChar ≠ '.' := by decide

namespace Ipv4Addr

theorem display_inj {a a' : Ipv4Addr} (h : a.display = a'.display) : a = a' := by
  have hoctets := joined_inj (by decide) (by decide) (fun d hd => dot_ne_digitChar d (by omega)) h
  exact Ipv4Addr.ext (List.map_injective_iff.mpr (fun _ _ => UInt8.toNat_inj.mp) hoctets)

theorem colon_notMem_display (a : Ipv4Addr) : ':' ∉ a.display := by
  intro h
  rcases mem_joined h with h | ⟨n, h⟩
  · exact absurd h (by decide)
  · exact sep_notMem_toDigits (by decide) (fun d hd => colon_ne_digitChar d (by omega)) n h

theorem dot_mem_display (a : Ipv4Addr) : '.' ∈ a.display := by
  by_contra h
  -- a text without dots is one piece, not four
  have hpieces := List.splitOn_eq_singleton h
  rw [display, splitOn_joined (by decide) fun d hd => dot_ne_digitChar d (by omega)] at hpieces
  have hlength := congrArg List.length hpieces
  have hne : a.octets.map (·.toNat) ≠ [] := by
    intro hnil
    have hzero := congrArg List.length hnil
    rw [List.length_map, a.length] at hzero
    exact absurd hzero (by decide)
  rw [pieces, if_neg hne, List.length_map, List.length_map, a.length, List.length_singleton] at hlength
  exact absurd hlength (by decide)

end Ipv4Addr

namespace Ipv6Addr

variable {a a' : Ipv6Addr}

theorem octetsOf_inj {s s' : UInt16} (h : octetsOf s = octetsOf s') : s = s' := by
  obtain ⟨hhigh, hrest⟩ := List.cons.inj h
  have hlow := (List.cons.inj hrest).1
  have hhigh' := congrArg UInt8.toNat hhigh
  have hlow' := congrArg UInt8.toNat hlow
  rw [UInt16.toNat_toUInt8, UInt16.toNat_toUInt8, UInt16.toNat_shiftRight,
    UInt16.toNat_shiftRight] at hhigh'
  rw [UInt16.toNat_toUInt8, UInt16.toNat_toUInt8] at hlow'
  have hs := s.toNat_lt
  have hs' := s'.toNat_lt
  refine UInt16.toNat_inj.mp ?_
  simp only [UInt16.reduceToNat, Nat.reduceMod, Nat.shiftRight_eq_div_pow] at hhigh'
  omega

theorem toIpv4Mapped_inj {v : Ipv4Addr} (h : a.toIpv4Mapped = some v) (h' : a'.toIpv4Mapped = some v) :
    a = a' := by
  unfold toIpv4Mapped at h h'
  split at h
  next hfirst =>
    split at h'
    next hfirst' =>
      have hoctets : (a.segments.drop 6).flatMap octetsOf = (a'.segments.drop 6).flatMap octetsOf :=
        congrArg Ipv4Addr.octets ((Option.some.inj h).trans (Option.some.inj h').symm)
      have hlast : a.segments.drop 6 = a'.segments.drop 6 := by
        obtain ⟨x, y, hxy⟩ := List.length_eq_two.mp
          (show (a.segments.drop 6).length = 2 by rw [List.length_drop, a.length])
        obtain ⟨x', y', hxy'⟩ := List.length_eq_two.mp
          (show (a'.segments.drop 6).length = 2 by rw [List.length_drop, a'.length])
        rw [hxy, hxy'] at hoctets ⊢
        simp only [List.flatMap_cons, List.flatMap_nil, List.append_nil] at hoctets
        obtain ⟨hx, hy⟩ := List.append_inj hoctets rfl
        rw [octetsOf_inj hx, octetsOf_inj hy]
      refine Ipv6Addr.ext ?_
      rw [← List.take_append_drop 6 a.segments, ← List.take_append_drop 6 a'.segments, hfirst, hfirst',
        hlast]
    next => exact absurd h' (by simp)
  next => exact absurd h (by simp)

theorem dot_notMem_fmtSubslice (chunk : List UInt16) : '.' ∉ fmtSubslice chunk := by
  intro h
  rcases mem_joined h with h | ⟨n, h⟩
  · exact absurd h (by decide)
  · exact sep_notMem_toDigits (by decide) dot_ne_digitChar n h

/-- Only mapped addresses are shown with dots. -/
theorem dot_mem_display_iff : '.' ∈ a.display ↔ a.toIpv4Mapped ≠ none := by
  unfold display
  split
  next ipv4 h =>
    refine iff_of_true ?_ (by simp [h])
    exact List.mem_append_right _ ipv4.dot_mem_display
  next h =>
    refine iff_of_false ?_ (by simp [h])
    dsimp only
    split
    · intro hdot
      rcases List.mem_append.mp hdot with hdot | hdot
      · rcases List.mem_append.mp hdot with hdot | hdot
        · exact dot_notMem_fmtSubslice _ hdot
        · exact absurd hdot (by decide)
      · exact dot_notMem_fmtSubslice _ hdot
    · exact dot_notMem_fmtSubslice _

/-- The segments before the longest run of zeros. -/
def before (a : Ipv6Addr) : List UInt16 := a.segments.take (zeroes a.segments).start

/-- The segments after the longest run of zeros. -/
def after (a : Ipv6Addr) : List UInt16 :=
  a.segments.drop ((zeroes a.segments).start + (zeroes a.segments).len)

/-- An address is given by what is around its longest run of zeros. -/
theorem segments_eq (a : Ipv6Addr) (h : (zeroes a.segments).len > 1) :
    a.segments =
      a.before ++ List.replicate (8 - a.before.length - a.after.length) 0 ++ a.after := by
  have hsplit : a.segments = a.before ++ List.replicate (zeroes a.segments).len 0 ++ a.after :=
    (zero_zeroes a.segments).split (by omega)
  have hlength := congrArg List.length hsplit
  rw [a.length, List.length_append, List.length_append, List.length_replicate] at hlength
  have hlen : 8 - a.before.length - a.after.length = (zeroes a.segments).len := by omega
  rw [hlen]
  exact hsplit

/-- The pieces between the colons of an address that is not mapped. -/
theorem splitOn_display (h : a.toIpv4Mapped = none) :
    a.display.splitOn ':' =
      if (zeroes a.segments).len > 1 then
        pieces 16 (a.before.map (·.toNat)) ++ [] :: pieces 16 (a.after.map (·.toNat))
      else (a.segments.map (·.toNat)).map (Nat.toDigits 16) := by
  simp only [display, h]
  split
  · exact splitOn_compressed (by decide) colon_ne_digitChar _ _
  · have hne : a.segments.map (·.toNat) ≠ [] := by
      intro hnil
      have hzero := congrArg List.length hnil
      rw [List.length_map, a.length] at hzero
      exact absurd hzero (by decide)
    exact (splitOn_joined (by decide) colon_ne_digitChar _).trans (if_neg hne)

theorem colon_mem_display (a : Ipv6Addr) : ':' ∈ a.display := by
  cases h : a.toIpv4Mapped with
  | some ipv4 =>
    simp only [display, h]
    exact List.mem_append_left _ (by decide)
  | none =>
    by_contra hcolon
    -- a text without colons is one piece
    have hpieces := splitOn_display h
    rw [List.splitOn_eq_singleton hcolon] at hpieces
    have hlength := congrArg List.length hpieces
    rw [List.length_singleton] at hlength
    split at hlength
    · rw [List.length_append, List.length_cons] at hlength
      have hpos : ∀ l, 0 < (pieces 16 l).length := by
        intro l
        unfold pieces
        split
        · decide
        · rename_i hne
          rw [List.length_map]
          exact List.length_pos_iff.mpr hne
      have hbefore := hpos (a.before.map (·.toNat))
      have hafter := hpos (a.after.map (·.toNat))
      omega
    · rw [List.length_map, List.length_map, a.length] at hlength
      exact absurd hlength (by decide)

theorem display_inj (h : a.display = a'.display) : a = a' := by
  have hdots : a.toIpv4Mapped ≠ none ↔ a'.toIpv4Mapped ≠ none := by
    rw [← dot_mem_display_iff, ← dot_mem_display_iff, h]
  cases hmapped : a.toIpv4Mapped with
  | some ipv4 =>
    cases hmapped' : a'.toIpv4Mapped with
    | none => exact absurd (hdots.mp (by simp [hmapped])) (by simp [hmapped'])
    | some ipv4' =>
      simp only [display, hmapped, hmapped'] at h
      obtain rfl := Ipv4Addr.display_inj (List.append_cancel_left h)
      exact toIpv4Mapped_inj hmapped hmapped'
  | none =>
    cases hmapped' : a'.toIpv4Mapped with
    | some ipv4' => exact absurd (hdots.mpr (by simp [hmapped'])) (by simp [hmapped])
    | none =>
      have hpieces := congrArg (List.splitOn ':') h
      rw [splitOn_display hmapped, splitOn_display hmapped'] at hpieces
      -- an empty piece shows where zeros were left out
      split at hpieces
      next hrun =>
        split at hpieces
        next hrun' =>
          obtain ⟨hbefore, hafter⟩ := compressed_inj (by decide) (by decide) hpieces
          refine Ipv6Addr.ext ?_
          rw [a.segments_eq hrun, a'.segments_eq hrun', map_toNat_inj16 hbefore, map_toNat_inj16 hafter]
        next =>
          exact absurd (hpieces ▸ List.mem_append_right _ List.mem_cons_self)
            (nil_notMem_map_toDigits _)
      next =>
        split at hpieces
        next =>
          exact absurd (hpieces.symm ▸ List.mem_append_right _ List.mem_cons_self)
            (nil_notMem_map_toDigits _)
        next =>
          exact Ipv6Addr.ext (map_toNat_inj16 (map_toDigits_inj (by decide) (by decide) hpieces))

end Ipv6Addr

/-- **Different addresses have different texts.** -/
theorem IpAddr.display_inj {a a' : IpAddr} (h : a.display = a'.display) : a = a' := by
  cases a with
  | v4 a =>
    cases a' with
    | v4 a' => exact congrArg _ (Ipv4Addr.display_inj (String.ofList_inj.mp h))
    | v6 a' =>
      have hchars : a.display = a'.display := String.ofList_inj.mp h
      exact absurd (hchars ▸ a'.colon_mem_display) a.colon_notMem_display
  | v6 a =>
    cases a' with
    | v4 a' =>
      have hchars : a.display = a'.display := String.ofList_inj.mp h
      exact absurd (hchars ▸ a.colon_mem_display) a'.colon_notMem_display
    | v6 a' => exact congrArg _ (Ipv6Addr.display_inj (String.ofList_inj.mp h))

end Rust
