import TodoWatch.Entity
import TodoWatch.Lib.Arcs

/-! # Ranges of the clock

A day is a circle of 1440 minutes, and a `TimeRange` whose hours and minutes are those of a clock is an arc of it,
from its start to its end. -/

namespace TodoWatch
namespace TimeRange

/-- The hours and minutes are those of a clock. The constructor takes any others as well. -/
structure OnClock (r : TimeRange) : Prop where
  startHour : 0 ≤ r.startHour ∧ r.startHour ≤ 23
  startMinute : 0 ≤ r.startMinute ∧ r.startMinute ≤ 59
  endHour : 0 ≤ r.endHour ∧ r.endHour ≤ 23
  endMinute : 0 ≤ r.endMinute ∧ r.endMinute ≤ 59

def startTimeInMinutes (r : TimeRange) : Int := r.startHour * 60 + r.startMinute

def endTimeInMinutes (r : TimeRange) : Int := r.endHour * 60 + r.endMinute

/-- The local minute of the day at an instant, whether before the epoch or after it. -/
def localMinute (now zone : Int) : Int := (now + zone) / 60000 % 1440

theorem day_pos : (0 : Int) < 1440 := by decide

theorem minuteOfDay_eq (now zone : Int) : minuteOfDay now zone = localMinute now zone := by
  unfold minuteOfDay hourOfDay minuteOfHour localMinute
  omega

theorem minuteOfDay_bounds (now zone : Int) : 0 ≤ minuteOfDay now zone ∧ minuteOfDay now zone < 1440 := by
  rw [minuteOfDay_eq]
  exact ⟨Int.emod_nonneg _ day_pos.ne', Int.emod_lt_of_pos _ day_pos⟩

section Clock
variable {r : TimeRange} {now zone : Int}

theorem OnClock.start_bounds (hr : r.OnClock) : 0 ≤ r.startTimeInMinutes ∧ r.startTimeInMinutes < 1440 := by
  obtain ⟨hhour, hminute, -, -⟩ := hr
  unfold startTimeInMinutes
  omega

theorem OnClock.end_bounds (hr : r.OnClock) : 0 ≤ r.endTimeInMinutes ∧ r.endTimeInMinutes < 1440 := by
  obtain ⟨-, -, hhour, hminute⟩ := hr
  unfold endTimeInMinutes
  omega

/-- A minute of the day is far from overflow. -/
theorem toInt_of_bounds {n : Int} (h : 0 ≤ n ∧ n < 1440) : toInt n = n :=
  Int.bmod_eq_of_le_mul_two (by omega) (by omega)

theorem OnClock.isWithinRange_iff (hr : r.OnClock) :
    r.isWithinRange now zone = true ↔
      if r.endTimeInMinutes < r.startTimeInMinutes then
        r.startTimeInMinutes ≤ minuteOfDay now zone ∨ minuteOfDay now zone ≤ r.endTimeInMinutes
      else
        r.startTimeInMinutes ≤ minuteOfDay now zone ∧ minuteOfDay now zone ≤ r.endTimeInMinutes := by
  have hstart : toInt (r.startHour * 60 + r.startMinute) = r.startTimeInMinutes := toInt_of_bounds hr.start_bounds
  have hend : toInt (r.endHour * 60 + r.endMinute) = r.endTimeInMinutes := toInt_of_bounds hr.end_bounds
  rw [TimeRange.isWithinRange_iff, hstart, hend]

/-- The two branches of the code are the two shapes that an arc of the day has between midnights. -/
theorem OnClock.isWithinRange_iff_mem_arc (hr : r.OnClock) :
    r.isWithinRange now zone = true ↔
      minuteOfDay now zone ∈ Arcs.arc day_pos r.startTimeInMinutes r.endTimeInMinutes := by
  have hstart : r.startTimeInMinutes ∈ Set.Ico 0 (0 + 1440) := hr.start_bounds
  have hend : r.endTimeInMinutes ∈ Set.Ico 0 (0 + 1440) := hr.end_bounds
  have hminute : minuteOfDay now zone ∈ Set.Ico 0 (0 + 1440) := minuteOfDay_bounds now zone
  rw [hr.isWithinRange_iff, Arcs.mem_arc_iff day_pos hstart hminute hend]

end Clock

end TimeRange

open TimeRange

/-- An instant is within a range of the clock exactly if its local minute is no further after the start, going round
    the day, than the end is. -/
theorem isWithinRange_cyclic {r : TimeRange} (hr : r.OnClock) (now zone : Int) :
    r.isWithinRange now zone = true ↔
      (localMinute now zone - r.startTimeInMinutes) % 1440 ≤ (r.endTimeInMinutes - r.startTimeInMinutes) % 1440 := by
  rw [hr.isWithinRange_iff_mem_arc, Arcs.mem_arc_int, minuteOfDay_eq]

/-- The last millisecond before the epoch is in the night. -/
theorem isWithinRange_cyclic_sleep : (⟨23, 0, 6, 59⟩ : TimeRange).isWithinRange (-1) 0 = true :=
  (isWithinRange_cyclic ⟨by decide, by decide, by decide, by decide⟩ (-1) 0).mpr (by decide)

end TodoWatch
