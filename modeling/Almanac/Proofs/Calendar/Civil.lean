import Almanac.Calendar.Civil
import Almanac.Proofs.Calendar.Date

/-!
# Reading civil times back

The parts of a civil time are the date and the time of day that it was put together
from, and the parts of a time of day are the numbers that it was made from.

Main results:

- Theorems `Civil.date_at`, `Civil.time_at`, `Civil.at_date_time`: the two parts of a
  civil time.
- Theorem `TimeOfDay.exists_ofHMS?`: the parts of a time of day, second 60 included.
- Theorem `TimeOfDay.eq_of_parts`: a time of day is the one with its parts.
- Theorem `TimeOfDay.ofHMS?_eq_none`: the numbers that no clock shows.
-/

namespace Almanac

/-! ## The two parts -/

namespace Civil

variable (d : Date) (t : TimeOfDay)

/-- The date of a reading that is put together from a date and a time. -/
@[simp]
theorem date_at : (d.at t).date = d := by
  have ht := t.seconds_lt
  have hday : (d.dayNumber * secondsPerDay + t.seconds) / secondsPerDay = d.dayNumber := by
    simp only [secondsPerDay] at *
    omega
  rw [date, Date.at, hday]

/-- The time of a reading that is put together from a date and a time. -/
@[simp]
theorem time_at : (d.at t).time = t := by
  have ht := t.seconds_lt
  have hseconds :
      ((d.dayNumber * secondsPerDay + t.seconds) % secondsPerDay).toNat = t.seconds := by
    simp only [secondsPerDay] at *
    omega
  simp only [time, Date.at, hseconds]

/-- Put on any date, a time stays as long after midnight. -/
@[simp]
theorem nanos_at : (d.at t).nanos = t.nanos :=
  rfl

/-- A civil time is put together from its parts. -/
@[simp]
theorem at_date_time (c : Civil) : c.date.at c.time = c := by
  have hseconds : c.seconds / secondsPerDay * secondsPerDay +
      ((c.seconds % secondsPerDay).toNat : Int) = c.seconds := by
    simp only [secondsPerDay]
    omega
  cases c
  simp only [Date.at, date, time] at hseconds ⊢
  simp only [hseconds]

end Civil

/-! ## The parts of a time of day -/

namespace TimeOfDay

variable {hour minute second : Nat}

/-- A clock shows its hour, minute and second, and second 60 within a leap second. -/
theorem exists_ofHMS? (hhour : hour ≤ 23) (hminute : minute ≤ 59) (hsecond : second ≤ 60) :
    ∃ t, ofHMS? hour minute second = some t ∧ t.hour = hour ∧ t.minute = minute ∧
      t.second = min second 59 ∧ t.nanos = if second = 60 then nanosPerSecond else 0 := by
  unfold ofHMS?
  split
  · rename_i hleap
    rw [dif_pos (by omega)]
    refine ⟨_, rfl, ?_, ?_, ?_, rfl⟩
    all_goals
      simp only [TimeOfDay.hour, TimeOfDay.minute, TimeOfDay.second]
      omega
  · rename_i hleap
    rw [ofParts?, dif_pos ⟨by omega, by omega, by omega, by decide⟩]
    refine ⟨_, rfl, ?_, ?_, ?_, rfl⟩
    all_goals
      simp only [TimeOfDay.hour, TimeOfDay.minute, TimeOfDay.second]
      omega

/-- No clock shows any other numbers. -/
theorem ofHMS?_eq_none (h : ¬ (hour ≤ 23 ∧ minute ≤ 59 ∧ second ≤ 60)) :
    ofHMS? hour minute second = none := by
  unfold ofHMS?
  split
  · rw [dif_neg (by omega)]
  · rw [ofParts?, dif_neg (by omega)]

/-- A time of day is the one with its parts. -/
theorem eq_of_parts {t u : TimeOfDay} (hhour : t.hour = u.hour) (hminute : t.minute = u.minute)
    (hsecond : t.second = u.second) (hnanos : t.nanos = u.nanos) : t = u := by
  have hseconds : t.seconds = u.seconds := by
    simp only [TimeOfDay.hour, TimeOfDay.minute, TimeOfDay.second] at hhour hminute hsecond
    omega
  cases t
  cases u
  simp only [mk.injEq]
  exact ⟨hseconds, hnanos⟩

end TimeOfDay

end Almanac
