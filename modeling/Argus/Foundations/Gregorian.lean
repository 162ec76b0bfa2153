import Mathlib.Tactic.Linarith
import Mathlib.Tactic.SplitIfs

/-!
# The proleptic Gregorian calendar

`civilDate d` is the year, month and day of the day number `d`, counted from 1 January of
year 1, by the usual decomposition into cycles of 400, 100, 4 and 1 years. Later days have
lexicographically later dates (`civilDate_lt`), and the fields stay inside their ranges
(`month_le_twelve`, `day_le_thirtyOne`), which is what a text form with fixed-width fields
needs in order to sort like time.
-/

namespace Foundations

/-- A calendar date. -/
structure CivilDate where
  year : ℕ
  month : ℕ
  day : ℕ
  deriving DecidableEq, Repr

/-- The leap-year rule. -/
def isLeap (y : ℕ) : Bool := y % 4 == 0 && (y % 100 != 0 || y % 400 == 0)

/-- Days in the `Y` years before year `Y + 1`. -/
def daysBeforeYear (Y : ℕ) : ℕ := 365 * Y + Y / 4 + Y / 400 - Y / 100

/-- The number of days of a year. -/
def yearLength (y : ℕ) : ℕ := if isLeap y then 366 else 365

/-- The lengths of the months of a year. -/
def monthLengths (y : ℕ) : List ℕ :=
  [31, if isLeap y then 29 else 28, 31, 30, 31, 30, 31, 31, 30, 31, 30, 31]

/-- The number of full years before day `d`. -/
def yearIndex (d : ℕ) : ℕ :=
  400 * (d / 146097) + 100 * min 3 (d % 146097 / 36524)
    + 4 * ((d % 146097 - 36524 * min 3 (d % 146097 / 36524)) / 1461)
    + min 3 ((d % 146097 - 36524 * min 3 (d % 146097 / 36524)) % 1461 / 365)

/-- The day within its year, from `0`. -/
def yearDay (d : ℕ) : ℕ :=
  (d % 146097 - 36524 * min 3 (d % 146097 / 36524)) % 1461
    - 365 * min 3 ((d % 146097 - 36524 * min 3 (d % 146097 / 36524)) % 1461 / 365)

/-- The month and day of a day within its year, walking the months from number `m` on. -/
def monthDay : ℕ → List ℕ → ℕ → ℕ × ℕ
  | m, [], d => (m, d + 1)
  | m, len :: rest, d => if d < len then (m, d + 1) else monthDay (m + 1) rest (d - len)

/-- The date of day `d`, where day `0` is 1 January of year 1. -/
def civilDate (d : ℕ) : CivilDate :=
  let y := yearIndex d + 1
  let md := monthDay 1 (monthLengths y) (yearDay d)
  ⟨y, md.1, md.2⟩

/-! ### Years -/

/-- The cycle decomposition recovers the day. -/
theorem daysBeforeYear_yearIndex (d : ℕ) : daysBeforeYear (yearIndex d) + yearDay d = d := by
  unfold daysBeforeYear yearIndex yearDay
  generalize ha : d / 146097 = a
  generalize hr : d % 146097 = r
  have hd : d = 146097 * a + r := by omega
  have hr' : r < 146097 := by omega
  generalize hb : min 3 (r / 36524) = b
  have hb3 : b ≤ 3 := by omega
  have hbr : 36524 * b ≤ r := by omega
  have hq : r - 36524 * b < 36525 ∧ (b < 3 → r - 36524 * b < 36524) := by omega
  generalize hs : r - 36524 * b = s at hq
  generalize hc : s / 1461 = c
  generalize ht : s % 1461 = t
  have hc24 : c ≤ 24 := by omega
  generalize he : min 3 (t / 365) = e
  have he3 : e ≤ 3 := by omega
  have het : 365 * e ≤ t := by omega
  have h4 : (400 * a + 100 * b + 4 * c + e) / 4 = 100 * a + 25 * b + c := by omega
  have h100 : (400 * a + 100 * b + 4 * c + e) / 100 = 4 * a + b := by omega
  have h400 : (400 * a + 100 * b + 4 * c + e) / 400 = a := by omega
  rw [h4, h100, h400]
  omega

/-- The day within the year is a day of that year. -/
theorem yearDay_lt (d : ℕ) : yearDay d < yearLength (yearIndex d + 1) := by
  unfold yearLength isLeap yearIndex yearDay
  generalize ha : d / 146097 = a
  generalize hr : d % 146097 = r
  have hr' : r < 146097 := by omega
  generalize hb : min 3 (r / 36524) = b
  have hb3 : b ≤ 3 := by omega
  have hq : r - 36524 * b < 36525 ∧ (b < 3 → r - 36524 * b < 36524) := by omega
  generalize hs : r - 36524 * b = s at hq
  generalize hc : s / 1461 = c
  generalize ht : s % 1461 = t
  have hc24 : c ≤ 24 := by omega
  generalize he : min 3 (t / 365) = e
  have he3 : e ≤ 3 := by omega
  have ht' : t < 1461 := by omega
  have h4 : (400 * a + 100 * b + 4 * c + e + 1) % 4 = (e + 1) % 4 := by omega
  have h100 : (400 * a + 100 * b + 4 * c + e + 1) % 100 = (4 * c + e + 1) % 100 := by omega
  have h400 : (400 * a + 100 * b + 4 * c + e + 1) % 400 = (100 * b + 4 * c + e + 1) % 400 := by
    omega
  simp only [h4, h100, h400, Bool.and_eq_true, beq_iff_eq, Bool.or_eq_true, bne_iff_ne, ne_eq]
  split_ifs <;> omega

private theorem daysBeforeYear_add (Y : ℕ) :
    daysBeforeYear Y + Y / 100 = 365 * Y + Y / 4 + Y / 400 := by
  have h : Y / 100 ≤ Y := Nat.div_le_self Y 100
  unfold daysBeforeYear
  omega

theorem daysBeforeYear_succ (Y : ℕ) :
    daysBeforeYear (Y + 1) = daysBeforeYear Y + yearLength (Y + 1) := by
  have h1 := daysBeforeYear_add Y
  have h2 := daysBeforeYear_add (Y + 1)
  generalize daysBeforeYear Y = a at *
  generalize daysBeforeYear (Y + 1) = b at *
  have h4 : (Y + 1) / 4 = Y / 4 + if (Y + 1) % 4 = 0 then 1 else 0 := by split_ifs <;> omega
  have h100 : (Y + 1) / 100 = Y / 100 + if (Y + 1) % 100 = 0 then 1 else 0 := by
    split_ifs <;> omega
  have h400 : (Y + 1) / 400 = Y / 400 + if (Y + 1) % 400 = 0 then 1 else 0 := by
    split_ifs <;> omega
  have h5 : (Y + 1) % 100 = 0 → (Y + 1) % 4 = 0 := by omega
  have h6 : (Y + 1) % 400 = 0 → (Y + 1) % 100 = 0 := by omega
  rw [h4, h100, h400] at h2
  simp only [yearLength, isLeap, Bool.and_eq_true, beq_iff_eq, Bool.or_eq_true, bne_iff_ne, ne_eq]
  split_ifs at h2 ⊢ with c1 c2 c3 <;> simp_all <;> omega

theorem daysBeforeYear_mono {X Y : ℕ} (h : X ≤ Y) : daysBeforeYear X ≤ daysBeforeYear Y := by
  induction h with
  | refl => exact le_rfl
  | step _ ih => exact ih.trans (by rw [daysBeforeYear_succ]; omega)

/-- Later days fall in later years, or later in the same year. -/
theorem yearIndex_lt {d₁ d₂ : ℕ} (h : d₁ < d₂) :
    yearIndex d₁ < yearIndex d₂ ∨ yearIndex d₁ = yearIndex d₂ ∧ yearDay d₁ < yearDay d₂ := by
  have h1 := daysBeforeYear_yearIndex d₁
  have h2 := daysBeforeYear_yearIndex d₂
  have hlt := yearDay_lt d₂
  rcases Nat.lt_trichotomy (yearIndex d₁) (yearIndex d₂) with hy | hy | hy
  · exact .inl hy
  · refine .inr ⟨hy, ?_⟩
    rw [hy] at h1
    omega
  · -- a later year starts after the whole of the earlier one
    have hmono := daysBeforeYear_mono (Nat.succ_le_of_lt hy)
    rw [Nat.succ_eq_add_one, daysBeforeYear_succ] at hmono
    omega

/-- The year index of a day before the start of year `Y + 1` is below `Y`. -/
theorem yearIndex_lt_of_lt {d Y : ℕ} (h : d < daysBeforeYear Y) : yearIndex d < Y := by
  by_contra hcon
  have := daysBeforeYear_mono (not_lt.mp hcon)
  have := daysBeforeYear_yearIndex d
  omega

/-! ### Months and days -/

/-- Walking the months keeps the order of the days. -/
theorem monthDay_lt {ls : List ℕ} {m d₁ d₂ : ℕ} (h : d₁ < d₂) :
    (monthDay m ls d₁).1 < (monthDay m ls d₂).1 ∨
      (monthDay m ls d₁).1 = (monthDay m ls d₂).1 ∧
        (monthDay m ls d₁).2 < (monthDay m ls d₂).2 := by
  induction ls generalizing m d₁ d₂ with
  | nil => exact .inr ⟨rfl, by simpa [monthDay] using h⟩
  | cons len rest ih =>
    have hfst : ∀ (ls : List ℕ) (m d : ℕ), m ≤ (monthDay m ls d).1 := by
      intro ls
      induction ls with
      | nil => exact fun m d => le_rfl
      | cons l ls ih =>
        intro m d
        rw [monthDay]
        split_ifs
        · exact le_rfl
        · exact (Nat.le_succ m).trans (ih (m + 1) _)
    simp only [monthDay]
    split_ifs with h1 h2
    · exact .inr ⟨rfl, Nat.succ_lt_succ h⟩
    · exact .inl (Nat.lt_of_lt_of_le (Nat.lt_succ_self m) (hfst rest (m + 1) _))
    · omega
    · exact ih (by omega)

/-- A walk that ends inside the months ends in one of them, on one of its days. -/
theorem monthDay_bounds {ls : List ℕ} {m d b : ℕ} (hd : d < ls.sum) (hb : ∀ l ∈ ls, l ≤ b) :
    (monthDay m ls d).1 < m + ls.length ∧ 0 < (monthDay m ls d).2 ∧ (monthDay m ls d).2 ≤ b := by
  induction ls generalizing m d with
  | nil => simp at hd
  | cons len rest ih =>
    simp only [monthDay]
    split_ifs with h
    · have := hb len (by simp)
      simp only [List.length_cons]
      omega
    · have hsum : d - len < rest.sum := by
        simp only [List.sum_cons] at hd
        omega
      obtain ⟨h1, h2⟩ := ih (m := m + 1) hsum fun l hl => hb l (by simp [hl])
      refine ⟨?_, h2⟩
      simp only [List.length_cons]
      omega

/-- The day on which a walk ends is one of its month. -/
theorem exists_monthDay {ls : List ℕ} {m d : ℕ} (hd : d < ls.sum) :
    ∃ i, (monthDay m ls d).1 = m + i ∧ 0 < (monthDay m ls d).2 ∧
      (monthDay m ls d).2 ≤ ls.getD i 0 := by
  induction ls generalizing m d with
  | nil => exact absurd hd (Nat.not_lt_zero d)
  | cons len rest ih =>
    rw [monthDay]
    split_ifs with h
    · exact ⟨0, rfl, Nat.succ_pos d, h⟩
    · obtain ⟨i, hmonth, hday⟩ := ih (m := m + 1) (d := d - len) (by
        rw [List.sum_cons] at hd
        omega)
      exact ⟨i + 1, by omega, hday⟩

/-- The days of the months that a walk passes, and the day on which it ends. -/
theorem sum_take_monthDay {ls : List ℕ} {m d : ℕ} (hd : d < ls.sum) :
    (ls.take ((monthDay m ls d).1 - m)).sum + ((monthDay m ls d).2 - 1) = d := by
  induction ls generalizing m d with
  | nil => exact absurd hd (Nat.not_lt_zero d)
  | cons len rest ih =>
    rw [monthDay]
    split_ifs with h
    · simp
    · have hrest : d - len < rest.sum := by
        rw [List.sum_cons] at hd
        omega
      obtain ⟨i, hmonth, -⟩ := exists_monthDay (m := m + 1) hrest
      have hih := ih (m := m + 1) hrest
      rw [hmonth, Nat.add_sub_cancel_left] at hih
      rw [hmonth, show m + 1 + i - m = i + 1 by omega, List.take_succ_cons, List.sum_cons]
      omega

theorem sum_monthLengths (y : ℕ) : (monthLengths y).sum = yearLength y := by
  simp only [monthLengths, yearLength]
  split_ifs <;> rfl

theorem mem_monthLengths_le {y l : ℕ} (h : l ∈ monthLengths y) : l ≤ 31 := by
  simp only [monthLengths, List.mem_cons, List.not_mem_nil, or_false] at h
  split_ifs at h <;> omega

private theorem monthDay_civilDate (d : ℕ) :
    (civilDate d).month < 1 + 12 ∧ 0 < (civilDate d).day ∧ (civilDate d).day ≤ 31 := by
  have h := @monthDay_bounds (monthLengths (yearIndex d + 1)) 1 (yearDay d)
    (b := 31) (by rw [sum_monthLengths]; exact yearDay_lt d) fun l hl => mem_monthLengths_le hl
  simpa [civilDate, monthLengths] using h

/-- The day of a date is one of its month. -/
theorem civilDate_valid (d : ℕ) : 1 ≤ (civilDate d).month ∧ 1 ≤ (civilDate d).day ∧
    (civilDate d).day ≤ (monthLengths (civilDate d).year).getD ((civilDate d).month - 1) 0 := by
  obtain ⟨i, hmonth, hpos, hle⟩ := @exists_monthDay (monthLengths (yearIndex d + 1)) 1 (yearDay d)
    (by rw [sum_monthLengths]; exact yearDay_lt d)
  change (civilDate d).month = 1 + i at hmonth
  refine ⟨by omega, hpos, ?_⟩
  rw [hmonth, Nat.add_sub_cancel_left]
  exact hle

/-- The day of a date. -/
def dayOf (year month day : ℕ) : ℕ :=
  daysBeforeYear (year - 1) + ((monthLengths year).take (month - 1)).sum + (day - 1)

/-- **The date of a day is the date of that day only.** -/
theorem dayOf_civilDate (d : ℕ) :
    dayOf (civilDate d).year (civilDate d).month (civilDate d).day = d := by
  have hwalk := @sum_take_monthDay (monthLengths (yearIndex d + 1)) 1 (yearDay d)
    (by rw [sum_monthLengths]; exact yearDay_lt d)
  have hyear := daysBeforeYear_yearIndex d
  rw [dayOf, civilDate, Nat.add_sub_cancel, Nat.add_assoc, hwalk, hyear]

theorem month_le_twelve (d : ℕ) : (civilDate d).month ≤ 12 :=
  Nat.le_of_lt_succ (by simpa [Nat.add_comm] using (monthDay_civilDate d).1)

theorem day_le_thirtyOne (d : ℕ) : (civilDate d).day ≤ 31 := (monthDay_civilDate d).2.2

/-- **Dates sort like days.** -/
theorem civilDate_lt {d₁ d₂ : ℕ} (h : d₁ < d₂) :
    (civilDate d₁).year < (civilDate d₂).year ∨
      (civilDate d₁).year = (civilDate d₂).year ∧
        ((civilDate d₁).month < (civilDate d₂).month ∨
          (civilDate d₁).month = (civilDate d₂).month ∧
            (civilDate d₁).day < (civilDate d₂).day) := by
  rcases yearIndex_lt h with hy | ⟨hy, hd⟩
  · exact .inl (Nat.succ_lt_succ hy)
  · refine .inr ⟨congrArg (· + 1) hy, ?_⟩
    simp only [civilDate, hy]
    exact monthDay_lt hd

/-- Days before 1 January of year `Y + 1` have a year of at most `Y`. -/
theorem civilDate_year_le {d Y : ℕ} (h : d < daysBeforeYear Y) : (civilDate d).year ≤ Y :=
  yearIndex_lt_of_lt h

example : civilDate 738944 = ⟨2024, 2, 29⟩ := by decide

end Foundations
