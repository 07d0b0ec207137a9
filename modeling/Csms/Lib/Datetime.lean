import Mathlib

/-!
# Aware datetimes of two zones

Instants and wall times are integer microseconds; a calendar date is the number of whole days
of a wall time. A `Zone` gives the UTC offset of an instant, and of a wall time for either fold.
A `Stamp` is an aware datetime whose tzinfo is UTC or one fixed zone. Two stamps of the same
tzinfo are compared and subtracted by wall time, stamps of different tzinfo by instant.

Results: `Stamp.before_fixed`, `Stamp.minus_fixed`, `Stamp.date_fixed`: under a constant offset
every operation is the one on instants.
-/

/-- Microseconds of a day and of a minute. -/
def DAY : ℤ := 86400000000
def MINUTE : ℤ := 60000000

/-- The UTC offset of an instant, and of a wall time with `fold` 0 (`false`) or 1 (`true`). -/
structure Zone where
  utcoffset : ℤ → ℤ
  walloffset : Bool → ℤ → ℤ

namespace Zone

/-- A zone of constant offset. -/
def fixed (offset : ℤ) : Zone := ⟨fun _ => offset, fun _ _ => offset⟩

/-- The offset in force at the instant `t`, after the transitions `(instant, new offset)`. -/
def offsetFrom (before : ℤ) : List (ℤ × ℤ) → ℤ → ℤ
  | [], _ => before
  | (at_, after) :: rest, t => if at_ ≤ t then offsetFrom after rest t else before

/-- The offset of the wall time `w`. With fold 0 a skipped or repeated wall time still has the
offset before the transition; with fold 1 it has the offset after it. -/
def wallOffsetFrom (fold : Bool) (before : ℤ) : List (ℤ × ℤ) → ℤ → ℤ
  | [], _ => before
  | (at_, after) :: rest, w =>
    if at_ + (if fold then min before after else max before after) ≤ w then
      wallOffsetFrom fold after rest w
    else before

/-- The zone with the given transitions in time order. -/
def ofTransitions (base : ℤ) (transitions : List (ℤ × ℤ)) : Zone :=
  ⟨offsetFrom base transitions, fun fold => wallOffsetFrom fold base transitions⟩

/-- `at.astimezone(tz)` as a wall time. -/
def wall (tz : Zone) (t : ℤ) : ℤ := t + tz.utcoffset t

/-- `at.astimezone(tz).date()`. -/
def localDate (tz : Zone) (t : ℤ) : ℤ := tz.wall t / DAY

end Zone

/-- An aware datetime: UTC, or the wall time of the zone with fold 0. -/
inductive Stamp where
  | utc (t : ℤ)
  | loc (w : ℤ)
  deriving DecidableEq, Repr

namespace Stamp

/-- `dt.astimezone(UTC)`. -/
def instant (tz : Zone) : Stamp → ℤ
  | utc t => t
  | loc w => w - tz.walloffset false w

/-- `a < b`. -/
def before (tz : Zone) : Stamp → Stamp → Bool
  | utc s, utc t => s < t
  | loc v, loc w => v < w
  | a, b => a.instant tz < b.instant tz

/-- `a - b`, in microseconds. -/
def minus (tz : Zone) : Stamp → Stamp → ℤ
  | utc s, utc t => s - t
  | loc v, loc w => v - w
  | a, b => a.instant tz - b.instant tz

/-- `a + timedelta(microseconds=d)`: wall time arithmetic. -/
def plus : Stamp → ℤ → Stamp
  | utc t, d => utc (t + d)
  | loc w, d => loc (w + d)

/-- `a.astimezone(tz).date()`. -/
def date (tz : Zone) : Stamp → ℤ
  | utc t => tz.localDate t
  | loc w => w / DAY

/-- Whether `==` with a datetime of another zone may hold: a wall time whose offset depends on
its fold equals none. -/
def comparable (tz : Zone) : Stamp → Bool
  | utc _ => true
  | loc w => tz.walloffset false w == tz.walloffset true w

/-- `timedelta / 2`: to the nearest microsecond, a half to even. -/
def halfDelta (d : ℤ) : ℤ :=
  if d % 2 = 0 then d / 2 else if d / 2 % 2 = 0 then d / 2 else d / 2 + 1

theorem halfDelta_bounds {d : ℤ} (h : 0 < d) : 0 ≤ halfDelta d ∧ halfDelta d < d := by
  unfold halfDelta
  split
  · omega
  · split <;> omega

/-- Two wall times have one instant only across a skipped hour, and then only the earlier one was
skipped: the later one can be compared. -/
def Lawful (tz : Zone) : Prop :=
  ∀ v w : ℤ, v < w → (loc v).instant tz = (loc w).instant tz → (loc w).comparable tz = true

/-! ## Constant offset -/

section Fixed

variable (c : ℤ)

theorem instant_fixed_loc (w : ℤ) : (loc w).instant (Zone.fixed c) = w - c := rfl

@[simp] theorem instant_utc (tz : Zone) (t : ℤ) : (utc t).instant tz = t := rfl

@[simp] theorem comparable_utc (tz : Zone) (t : ℤ) : (utc t).comparable tz = true := rfl

@[simp] theorem comparable_fixed (s : Stamp) : s.comparable (Zone.fixed c) = true := by
  cases s <;> simp [comparable, Zone.fixed]

theorem before_fixed (a b : Stamp) :
    a.before (Zone.fixed c) b = true ↔ a.instant (Zone.fixed c) < b.instant (Zone.fixed c) := by
  cases a <;> cases b <;> simp [before, instant, Zone.fixed] <;> exact decide_eq_true_iff

theorem minus_fixed (a b : Stamp) :
    a.minus (Zone.fixed c) b = a.instant (Zone.fixed c) - b.instant (Zone.fixed c) := by
  cases a <;> cases b <;> simp [minus, instant, Zone.fixed]

theorem instant_plus_fixed (a : Stamp) (d : ℤ) :
    (a.plus d).instant (Zone.fixed c) = a.instant (Zone.fixed c) + d := by
  cases a
  · rfl
  · simp only [plus, instant, Zone.fixed]; ring

theorem lawful_fixed : Lawful (Zone.fixed c) := by
  intro v w hvw h
  rw [instant_fixed_loc, instant_fixed_loc] at h
  omega

theorem date_fixed (a : Stamp) :
    a.date (Zone.fixed c) = (a.instant (Zone.fixed c) + c) / DAY := by
  cases a <;> simp [date, instant, Zone.localDate, Zone.wall, Zone.fixed]

end Fixed

end Stamp
