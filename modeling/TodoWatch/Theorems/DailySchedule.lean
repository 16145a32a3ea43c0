import TodoWatch.Sorter
import TodoWatch.MainActivity
import TodoWatch.Theorems.CyclicRange
import Mathlib.Data.List.Rotate

/-! # A daily schedule

The ranges of `createUser` follow each other through the day: each one ends in the minute before the next
begins, and the last in the minute before the first. Such a schedule covers every instant once. -/

namespace TodoWatch
namespace Schedule

/-- The minute of the day before minute `n`. -/
def minuteBefore (n : Nat) : Nat := (n + 1439) % 1440

/-- The range from one minute of the day to another. -/
def ofMinutes (start last : Nat) : TimeRange :=
  { startHour := (start / 60 : Nat), startMinute := (start % 60 : Nat),
    endHour := (last / 60 : Nat), endMinute := (last % 60 : Nat) }

def slot (start next : Nat) : TimeRange := ofMinutes start (minuteBefore next)

/-- The ranges that begin in the given minutes of the day. After the last comes the first again. -/
def schedule (starts : List Nat) : List TimeRange := List.zipWith slot starts (starts.rotate 1)

/-- The time map of a new user is the schedule of 7:00, 9:00, 17:00 and 23:00. -/
theorem createUser_timeMap (uuid : String) :
    (createUser none uuid).1.timeMap.map Prod.snd = schedule [420, 540, 1020, 1380] := rfl

section Slots
variable {now zone : Int} {start last next first c : Nat} {starts cs : List Nat}

theorem onClock_ofMinutes (hstart : start < 1440) (hlast : last < 1440) : (ofMinutes start last).OnClock := by
  constructor <;> dsimp only [ofMinutes] <;> omega

theorem ofMinutes_isWithinRange_iff (hstart : start < 1440) (hlast : last < 1440) :
    (ofMinutes start last).isWithinRange now zone = true ↔
      if last < start then minuteOfDay now zone ≥ start ∨ minuteOfDay now zone ≤ last
      else minuteOfDay now zone ≥ start ∧ minuteOfDay now zone ≤ last := by
  have hfrom : (ofMinutes start last).startTimeInMinutes = start := by
    dsimp only [TimeRange.startTimeInMinutes, ofMinutes]
    omega
  have hto : (ofMinutes start last).endTimeInMinutes = last := by
    dsimp only [TimeRange.endTimeInMinutes, ofMinutes]
    omega
  rw [(onClock_ofMinutes hstart hlast).isWithinRange_iff, hfrom, hto]
  simp only [ge_iff_le, Int.ofNat_lt]

theorem slot_of_lt (h : start < next) (hnext : next < 1440) :
    (slot start next).isWithinRange now zone = true ↔
      (start : Int) ≤ minuteOfDay now zone ∧ minuteOfDay now zone < next := by
  have hbefore : minuteBefore next = next - 1 := by
    unfold minuteBefore
    omega
  rw [slot, hbefore, ofMinutes_isWithinRange_iff (by omega) (by omega), if_neg (by omega)]
  omega

/-- The last slot crosses midnight, unless the first one begins there. -/
theorem slot_of_le (h : first ≤ start) (hstart : start < 1440) :
    (slot start first).isWithinRange now zone = true ↔
      (start : Int) ≤ minuteOfDay now zone ∨ minuteOfDay now zone < first := by
  have hday := TimeRange.minuteOfDay_bounds now zone
  rcases Nat.eq_zero_or_pos first with rfl | hpos
  · have hbefore : minuteBefore 0 = 1439 := rfl
    rw [slot, hbefore, ofMinutes_isWithinRange_iff hstart (by omega), if_neg (by omega)]
    omega
  · have hbefore : minuteBefore first = first - 1 := by
      unfold minuteBefore
      omega
    rw [slot, hbefore, ofMinutes_isWithinRange_iff hstart (by omega), if_pos (by omega)]
    omega

/-- The slots from minute `c` on, up to the first one of the day: together they leave out the minutes from
    `first` to `c`, and they hold every other minute once. -/
theorem countP_slots (hfirst : first ≤ c) (hinc : (c :: cs).Pairwise (· < ·)) (hday : ∀ n ∈ c :: cs, n < 1440) :
    (List.zipWith slot (c :: cs) (cs ++ [first])).countP (·.isWithinRange now zone) =
      if (first : Int) ≤ minuteOfDay now zone ∧ minuteOfDay now zone < c then 0 else 1 := by
  induction cs generalizing c with
  | nil =>
    have hslot := @slot_of_le now zone c first hfirst (hday c List.mem_cons_self)
    rw [List.nil_append, List.zipWith_cons_cons, List.zipWith_nil_left, List.countP_singleton]
    simp only [hslot]
    split <;> split <;> omega
  | cons d cs ih =>
    have hcd : c < d := List.rel_of_pairwise_cons hinc List.mem_cons_self
    have hslot := @slot_of_lt now zone c d hcd (hday d (List.mem_cons_of_mem c List.mem_cons_self))
    rw [List.cons_append, List.zipWith_cons_cons, List.countP_cons, ih (hfirst.trans hcd.le) hinc.of_cons
      fun n hn => hday n (List.mem_cons_of_mem c hn)]
    simp only [hslot]
    split <;> split <;> split <;> omega

theorem countP_schedule (hne : starts ≠ []) (hinc : starts.Pairwise (· < ·)) (hday : ∀ n ∈ starts, n < 1440) :
    (schedule starts).countP (·.isWithinRange now zone) = 1 := by
  obtain ⟨first, rest, rfl⟩ := List.exists_cons_of_ne_nil hne
  rw [schedule, List.rotate_cons_succ, List.rotate_zero, countP_slots (le_refl first) hinc hday]
  exact if_neg (by omega)

end Slots

theorem exists_unique_of_countP {α : Type} {p : α → Bool} {l : List α} (h : l.countP p = 1) :
    ∃ (i : Nat) (a : α), l[i]? = some a ∧ p a = true ∧ ∀ (j : Nat) (b : α), l[j]? = some b → p b = true → j = i := by
  induction l with
  | nil => simp at h
  | cons x l ih =>
    rw [List.countP_cons] at h
    by_cases hx : p x = true
    · have hnone : l.countP p = 0 := by simpa [hx] using h
      refine ⟨0, x, rfl, hx, fun j b hj hb => ?_⟩
      cases j with
      | zero => rfl
      | succ j => exact absurd hb (List.countP_eq_zero.mp hnone b (List.mem_of_getElem? hj))
    · obtain ⟨i, a, hi, ha, huniq⟩ := ih (by simpa [hx] using h)
      refine ⟨i + 1, a, hi, ha, fun j b hj hb => ?_⟩
      cases j with
      | zero => exact absurd (Option.some.inj hj ▸ hb) hx
      | succ j => rw [huniq j b hj hb]

end Schedule

open Schedule

/-- Every instant lies in exactly one slot of a schedule. A time map of the schedule gives the constant of that slot, in
    whatever order it is iterated. -/
theorem mapTimeToContext_schedule {starts : List Nat} (hne : starts ≠ []) (hinc : starts.Pairwise (· < ·))
    (hday : ∀ n ∈ starts, n < 1440) (now zone : Int) :
    ∃ i r, (schedule starts)[i]? = some r ∧ r.isWithinRange now zone = true ∧
      (∀ j r', (schedule starts)[j]? = some r' → r'.isWithinRange now zone = true → j = i) ∧
      ∀ (keys : List String) (constant : Nat → Time), keys.length = starts.length →
        (∀ j key, keys[j]? = some key → Time.valueOf (toUpperCase key) = .ok (constant j)) →
        ∀ timeMap : Entries TimeRange, timeMap.Perm (keys.zip (schedule starts)) →
          mapTimeToContext timeMap now zone = .ok (constant i) := by
  obtain ⟨i, r, hr, hwithin, huniq⟩ :=
    exists_unique_of_countP (@countP_schedule now zone starts hne hinc hday)
  refine ⟨i, r, hr, hwithin, huniq, fun keys constant hlen hkeys timeMap hperm => ?_⟩
  have hi : i < keys.length := by
    have hlt := (List.getElem?_eq_some_iff.mp hr).1
    simp only [schedule, List.length_zipWith, List.length_rotate, Nat.min_self] at hlt
    omega
  obtain ⟨key, hkey⟩ : ∃ key, keys[i]? = some key := ⟨_, List.getElem?_eq_getElem hi⟩
  have hentry : (keys.zip (schedule starts))[i]? = some (key, r) :=
    List.getElem?_zip_eq_some.mpr ⟨hkey, hr⟩
  rw [mapTimeToContext, mapToContext_of_unique (hperm.mem_iff.mpr (List.mem_of_getElem? hentry)) hwithin, hkeys i key hkey]
  intro e he hwithin'
  obtain ⟨j, hj⟩ := List.mem_iff_getElem?.mp (hperm.mem_iff.mp he)
  obtain rfl := huniq j e.2 (List.getElem?_zip_eq_some.mp hj).2 hwithin'
  exact Option.some.inj (hj.symm.trans hentry)

/-- At 6:59 the slot that crosses midnight decides. -/
theorem mapTimeToContext_schedule_sleep :
    mapTimeToContext ((["Before_Work", "working", "rest", "sleep"].zip (schedule [420, 540, 1020, 1380])).reverse)
      25199999 0 = .ok .sleep := by
  obtain ⟨i, r, hr, hwithin, huniq, hmap⟩ := @mapTimeToContext_schedule [420, 540, 1020, 1380]
    (by decide) (by decide) (by decide) 25199999 0
  have hi : 3 = i := huniq 3 (slot 1380 420) rfl (by decide)
  subst hi
  refine hmap ["Before_Work", "working", "rest", "sleep"] (fun j => [.beforeWork, .working, .rest].getD j .sleep) rfl
    (fun j key hkey => ?_) _ (List.reverse_perm _)
  rcases j with _ | _ | _ | _ | j
  all_goals cases hkey
  all_goals rfl

end TodoWatch
