import ItemSchema.Instant.Calendar

/-! Every day number belongs to exactly the date that is computed for it: a valid date, whose day
number it is. -/
namespace ItemSchema.Calendar

theorem daysOf_cons (length : Nat) (rest : List Nat) :
    daysOf (length :: rest) = length + daysOf rest :=
  rfl

/-- The guess misses the year by one at most, and the correction finds it. -/
theorem yearOf_bounds (day : Int) :
    yearStart (yearOf day) ≤ day ∧ day < yearStart (yearOf day + 1) := by
  unfold yearOf yearStart
  dsimp only
  split
  · omega
  · split <;> omega

theorem daysOf_monthLengths (year : Int) :
    (daysOf (monthLengths year) : Int) = yearStart (year + 1) - yearStart year := by
  have days : daysOf (monthLengths year) = if isLeap year then 366 else 365 := by
    cases leap : isLeap year <;> simp [daysOf, monthLengths, leap]
  rw [days]
  unfold yearStart
  by_cases leap : isLeap year = true
  · rw [if_pos leap]
    simp [isLeap] at leap
    omega
  · rw [if_neg leap]
    simp [isLeap] at leap
    omega

/-- The month that is found is one of the list, the day lies in it, and the months before it and the
days before the day make up the number of days. -/
theorem monthOf_spec {lengths : List Nat} (inYear : days < daysOf lengths) (first : Nat) :
    ∃ index day, monthOf first lengths days = (first + index, day + 1) ∧
      day < lengths.getD index 0 ∧ index < lengths.length ∧
      days = daysOf (lengths.take index) + day := by
  induction lengths generalizing days first with
  | nil => exact absurd inYear (Nat.not_lt_zero days)
  | cons length rest ih =>
    rw [daysOf_cons] at inYear
    unfold monthOf
    by_cases here : days < length
    · exact ⟨0, days, by simp [here], by simpa using here, by simp, by simp [daysOf]⟩
    · have later : days - length < daysOf rest := by omega
      obtain ⟨index, day, found, inMonth, bound, total⟩ := ih later (first + 1)
      refine ⟨index + 1, day, ?_, by simpa using inMonth, by simpa using bound, ?_⟩
      · rw [if_neg here, found, Nat.add_assoc, Nat.add_comm 1]
      · rw [List.take_succ_cons, daysOf_cons]
        omega

theorem ofDayNumber_spec (day : Int) :
    (Date.ofDayNumber day).isValid = true ∧ (Date.ofDayNumber day).dayNumber = day := by
  obtain ⟨start, next⟩ := yearOf_bounds day
  have total := daysOf_monthLengths (yearOf day)
  have inYear : (day - yearStart (yearOf day)).toNat < daysOf (monthLengths (yearOf day)) := by
    omega
  obtain ⟨index, inMonth, found, short, bound, days⟩ := monthOf_spec inYear 1
  have length : (monthLengths (yearOf day)).length = 12 := rfl
  have date : Date.ofDayNumber day = ⟨yearOf day, 1 + index, inMonth + 1⟩ := by
    simp only [Date.ofDayNumber, found]
  have month : 1 + index - 1 = index := by omega
  constructor
  · simp only [date, Date.isValid, month, Bool.and_eq_true, decide_eq_true_eq]
    omega
  · simp only [date, Date.dayNumber, month]
    omega

end ItemSchema.Calendar
