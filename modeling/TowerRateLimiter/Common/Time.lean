import Mathlib.Tactic.Ring
import Mathlib.Tactic.Linarith
import Mathlib.Data.List.Basic

/-!
# Machine integers, durations and instants

The part of Rust's standard library that the rate limiter's arithmetic rests on: saturating `u64`
operations, `Duration` and the monotonic `Instant`. A `Duration` is a number of nanoseconds below
`2 ^ 64` seconds and an `Instant` a number of nanoseconds since the clock's epoch below `2 ^ 63`
seconds, so both carry their range and `checkedAdd` fails exactly where the platform clock does.
-/

namespace Rust

/-- `u64::MAX`. -/
def u64Max : ℕ := 2 ^ 64 - 1

/-- `i64::MAX`. -/
def i64Max : ℤ := 2 ^ 63 - 1

/-! ## Saturating `u64` arithmetic -/

/-- `u64::saturating_add`. -/
def saturatingAdd (a b : UInt64) : UInt64 :=
  UInt64.ofNat (min (a.toNat + b.toNat) u64Max)

/-- `u64::saturating_sub`. -/
def saturatingSub (a b : UInt64) : UInt64 :=
  UInt64.ofNat (a.toNat - b.toNat)

@[simp] theorem toNat_saturatingAdd (a b : UInt64) :
    (saturatingAdd a b).toNat = min (a.toNat + b.toNat) u64Max := by
  rw [saturatingAdd, UInt64.toNat_ofNat', Nat.mod_eq_of_lt]
  simp only [u64Max]
  omega

@[simp] theorem toNat_saturatingSub (a b : UInt64) :
    (saturatingSub a b).toNat = a.toNat - b.toNat := by
  have hlt := a.toNat_lt
  rw [saturatingSub, UInt64.toNat_ofNat', Nat.mod_eq_of_lt (by omega)]

/-! ## Durations -/

/-- Nanoseconds in a second. -/
def nanosPerSec : ℕ := 10 ^ 9

/-- Nanoseconds in a millisecond. -/
def nanosPerMilli : ℕ := 10 ^ 6

/-- `std::time::Duration`: whole nanoseconds, with at most `u64::MAX` whole seconds. -/
@[ext]
structure Duration where
  nanos : ℕ
  inRange : nanos < 2 ^ 64 * nanosPerSec
deriving DecidableEq

namespace Duration

/-- `Duration::from_millis`. -/
def ofMillis (millis : UInt64) : Duration where
  nanos := millis.toNat * nanosPerMilli
  inRange := by
    have := millis.toNat_lt
    simp only [nanosPerMilli, nanosPerSec]
    omega

/-- `Duration::from_secs`. -/
def ofSecs (secs : UInt64) : Duration where
  nanos := secs.toNat * nanosPerSec
  inRange := by
    have := secs.toNat_lt
    simp only [nanosPerSec]
    omega

/-- `Duration::as_millis`, which truncates to whole milliseconds (a `u128` in Rust). -/
def asMillis (d : Duration) : ℕ := d.nanos / nanosPerMilli

/-- `Duration::as_secs`. -/
def asSecs (d : Duration) : UInt64 := UInt64.ofNat (d.nanos / nanosPerSec)

/-- `Duration::subsec_nanos`. -/
def subsecNanos (d : Duration) : ℕ := d.nanos % nanosPerSec

instance : LE Duration := ⟨fun a b => a.nanos ≤ b.nanos⟩
instance : LT Duration := ⟨fun a b => a.nanos < b.nanos⟩
instance (a b : Duration) : Decidable (a ≤ b) := inferInstanceAs (Decidable (a.nanos ≤ b.nanos))
instance (a b : Duration) : Decidable (a < b) := inferInstanceAs (Decidable (a.nanos < b.nanos))

end Duration

/-! ## Instants -/

/-- The first nanosecond count that the platform clock cannot represent: seconds are an `i64`. -/
def instantEnd : ℕ := 2 ^ 63 * nanosPerSec

/-- `std::time::Instant`: nanoseconds since the epoch of the monotonic clock. -/
@[ext]
structure Instant where
  nanos : ℕ
  inRange : nanos < instantEnd
deriving DecidableEq

namespace Instant

instance : LE Instant := ⟨fun a b => a.nanos ≤ b.nanos⟩
instance : LT Instant := ⟨fun a b => a.nanos < b.nanos⟩
instance (a b : Instant) : Decidable (a ≤ b) := inferInstanceAs (Decidable (a.nanos ≤ b.nanos))
instance (a b : Instant) : Decidable (a < b) := inferInstanceAs (Decidable (a.nanos < b.nanos))

theorem le_def {a b : Instant} : a ≤ b ↔ a.nanos ≤ b.nanos := Iff.rfl

@[simp] theorem not_lt {a b : Instant} : ¬ a < b ↔ b ≤ a := Nat.not_lt

/-- The instant so many milliseconds after the epoch. -/
def ofMillis (millis : UInt64) : Instant where
  nanos := millis.toNat * nanosPerMilli
  inRange := by
    have := millis.toNat_lt
    simp only [instantEnd, nanosPerMilli, nanosPerSec]
    omega

/-- `Instant::checked_add`. -/
def checkedAdd (i : Instant) (d : Duration) : Option Instant :=
  if h : i.nanos + d.nanos < instantEnd then some ⟨i.nanos + d.nanos, h⟩ else none

/-- `Instant::saturating_duration_since`. -/
def saturatingDurationSince (i earlier : Instant) : Duration where
  nanos := i.nanos - earlier.nanos
  inRange := by
    have := i.inRange
    simp only [instantEnd] at this
    omega

@[simp] theorem nanos_saturatingDurationSince (i earlier : Instant) :
    (i.saturatingDurationSince earlier).nanos = i.nanos - earlier.nanos := rfl

theorem checkedAdd_of_lt {i : Instant} {d : Duration} (h : i.nanos + d.nanos < instantEnd) :
    i.checkedAdd d = some ⟨i.nanos + d.nanos, h⟩ := dif_pos h

theorem checkedAdd_of_le {i : Instant} {d : Duration} (h : instantEnd ≤ i.nanos + d.nanos) :
    i.checkedAdd d = none := dif_neg (Nat.not_lt.mpr h)

end Instant

end Rust
