import Scaffold.Artifact.Migration
import Scaffold.Proofs.Backup.Stamps

/-!
# Later moments

The day after is a day of the calendar again, and it is later: of its year, month and day the first
that differs is greater. So the moments that lie whole seconds after another one are in the order of
the seconds, whatever is carried between them, and so are the names of migrations that begin with them.
-/

namespace Scaffold

namespace Day

/-- A day that its month has. -/
structure IsValid (d : Day) : Prop where
  month : 1 ≤ d.month ∧ d.month ≤ 12
  day : 1 ≤ d.day ∧ d.day ≤ length d.year d.month

theorem one_le_length (year month : ℕ) : 1 ≤ length year month := by
  unfold length
  split
  · split <;> decide
  all_goals decide

variable {d : Day}

theorem IsValid.next (h : d.IsValid) : d.next.IsValid := by
  have hmonth := h.month
  unfold Day.next
  split
  · next hday => exact ⟨h.month, by simp, hday⟩
  · split
    · exact ⟨⟨by simp, by simpa using by omega⟩, le_rfl, one_le_length _ _⟩
    · exact ⟨⟨le_rfl, by simp⟩, le_rfl, one_le_length _ _⟩

theorem IsValid.after (h : d.IsValid) (n : ℕ) : (after n d).IsValid := by
  induction n generalizing d with
  | zero => exact h
  | succ n ih => exact ih h.next

theorem after_add (n k : ℕ) (d : Day) : after (n + k) d = after k (after n d) := by
  induction n generalizing d with
  | zero => rw [Nat.zero_add, after]
  | succ n ih => rw [Nat.add_right_comm, after, after, ih]

/-! ## The order of days -/

/-- The numbers of a day, the year first. -/
def parts (d : Day) : List ℕ := [d.year, d.month, d.day]

theorem parts_lt_next (d : Day) : d.parts < d.next.parts := by
  unfold next
  split
  · simp [parts, List.cons_lt_cons_iff]
  · split <;> simp [parts, List.cons_lt_cons_iff]

theorem parts_le_after (n : ℕ) (d : Day) : d.parts ≤ (after n d).parts := by
  induction n generalizing d with
  | zero => exact le_rfl
  | succ n ih => exact d.parts_lt_next.le.trans (ih d.next)

theorem parts_lt_after {n k : ℕ} (h : n < k) (d : Day) : (after n d).parts < (after k d).parts := by
  obtain ⟨l, rfl⟩ := Nat.exists_eq_add_of_lt h
  rw [Nat.add_assoc, after_add, Nat.add_comm l 1, after_add 1 l]
  exact (parts_lt_next _).trans_le (parts_le_after l _)

theorem year_le_of_parts_le {d' : Day} (h : d.parts ≤ d'.parts) : d.year ≤ d'.year := by
  by_contra hyear
  refine absurd h (not_le.2 ?_)
  simp [parts, List.cons_lt_cons_iff, not_le.1 hyear]

end Day

namespace Moment

variable {m m' : Moment} {i j : ℕ}

theorem isCommon_iff : m.IsCommon ↔ (1000 ≤ m.date.year ∧ m.date.year ≤ 9999) ∧ m.date.IsValid ∧
    m.hour < 24 ∧ m.minute < 60 ∧ m.second < 60 :=
  ⟨fun h ↦ ⟨h.year, ⟨h.month, h.day⟩, h.hour, h.minute, h.second⟩,
    fun ⟨hyear, hdate, hhour, hminute, hsecond⟩ ↦
      ⟨hyear, hdate.month, hdate.day, hhour, hminute, hsecond⟩⟩

/-- Moments are ordered by their days first, then by their seconds. -/
theorem parts_lt_iff (hhour : m.hour < 24) (hminute : m.minute < 60) (hsecond : m.second < 60)
    (hhour' : m'.hour < 24) (hminute' : m'.minute < 60) (hsecond' : m'.second < 60) :
    m.parts < m'.parts ↔
      m.date.parts < m'.date.parts ∨ m.date = m'.date ∧ m.secondOfDay < m'.secondOfDay := by
  obtain ⟨⟨y, mo, d⟩, h, mi, s⟩ := m
  obtain ⟨⟨y', mo', d'⟩, h', mi', s'⟩ := m'
  simp only [parts, Day.parts, secondOfDay, List.cons_lt_cons_iff, List.not_lt_nil, and_false,
    or_false, Day.mk.injEq] at *
  omega

theorem plus?_eq_some_iff : m.plus? i = some m' ↔
    (m.date.after ((m.secondOfDay + i) / 86400)).year ≤ 9999 ∧
      m' = ⟨m.date.after ((m.secondOfDay + i) / 86400), (m.secondOfDay + i) % 86400 / 3600,
        (m.secondOfDay + i) % 86400 / 60 % 60, (m.secondOfDay + i) % 86400 % 60⟩ := by
  simp only [plus?]
  split
  · next hyear => simp [hyear]
  · next hyear => simp [not_lt.1 hyear, eq_comm]

theorem secondOfDay_plus? (h : m.plus? i = some m') :
    m'.secondOfDay = (m.secondOfDay + i) % 86400 := by
  obtain ⟨-, rfl⟩ := plus?_eq_some_iff.1 h
  simp only [secondOfDay]
  omega

/-- Whatever time of day it is, later ones have one. -/
theorem time_plus? (h : m.plus? i = some m') : m'.hour < 24 ∧ m'.minute < 60 ∧ m'.second < 60 := by
  obtain ⟨-, rfl⟩ := plus?_eq_some_iff.1 h
  dsimp only
  omega

/-- If the calendar has a moment then it has those before it, and they are earlier. -/
theorem exists_plus?_lt (h : i < j) (hj : m.plus? j = some m') :
    ∃ earlier, m.plus? i = some earlier ∧ earlier.parts < m'.parts := by
  obtain ⟨hyear, heq⟩ := plus?_eq_some_iff.1 hj
  have hdays : (m.secondOfDay + i) / 86400 ≤ (m.secondOfDay + j) / 86400 := by omega
  have hle : (m.date.after ((m.secondOfDay + i) / 86400)).parts ≤
      (m.date.after ((m.secondOfDay + j) / 86400)).parts := by
    rcases hdays.eq_or_lt with hsame | hless
    · rw [hsame]
    · exact (Day.parts_lt_after hless m.date).le
  obtain ⟨earlier, hi⟩ : ∃ earlier, m.plus? i = some earlier :=
    ⟨_, plus?_eq_some_iff.2 ⟨(Day.year_le_of_parts_le hle).trans hyear, rfl⟩⟩
  refine ⟨earlier, hi, ?_⟩
  obtain ⟨hhour, hminute, hsecond⟩ := time_plus? hi
  obtain ⟨hhour', hminute', hsecond'⟩ := time_plus? hj
  rw [parts_lt_iff hhour hminute hsecond hhour' hminute' hsecond', secondOfDay_plus? hi,
    secondOfDay_plus? hj]
  obtain ⟨-, rfl⟩ := plus?_eq_some_iff.1 hi
  subst heq
  -- Either a midnight lies between the two, or they are on one day.
  rcases hdays.eq_or_lt with hsame | hless
  · exact .inr ⟨by rw [hsame], by omega⟩
  · exact .inl (Day.parts_lt_after hless m.date)

theorem IsCommon.plus? (h : m.IsCommon) (hi : m.plus? i = some m') : m'.IsCommon := by
  obtain ⟨hyear, hdate, -⟩ := isCommon_iff.1 h
  obtain ⟨hlast, heq⟩ := plus?_eq_some_iff.1 hi
  have hafter := Day.year_le_of_parts_le (Day.parts_le_after ((m.secondOfDay + i) / 86400) m.date)
  have hdate' := hdate.after ((m.secondOfDay + i) / 86400)
  have htime := time_plus? hi
  rw [heq] at htime ⊢
  exact isCommon_iff.2 ⟨⟨hyear.1.trans hafter, hlast⟩, hdate', htime⟩

/-! ## Stamps of migrations -/

theorem IsCommon.toList_migrationStamp (h : m.IsCommon) : m.migrationStamp.toList =
    lastDigits 4 m.date.year ++ '_' :: (lastDigits 2 m.date.month ++ '_' ::
      (lastDigits 2 m.date.day ++ '_' :: (lastDigits 2 m.hour ++
        (lastDigits 2 m.minute ++ lastDigits 2 m.second)))) := by
  have htext (s : String) : toString s = s := rfl
  obtain ⟨-, hmonth, hday, hhour, hminute, hsecond⟩ := h.bounds
  simp only [migrationStamp, htext, String.toList_append]
  rw [toList_year h.year.1 h.year.2, toList_twoDigits hmonth, toList_twoDigits hday,
    toList_twoDigits hhour, toList_twoDigits hminute, toList_twoDigits hsecond]
  simp

theorem IsCommon.length_migrationStamp (h : m.IsCommon) : m.migrationStamp.toList.length = 17 := by
  simp [h.toList_migrationStamp]

/-- Stamps are ordered as the moments are. -/
theorem IsCommon.migrationStamp_lt (h : m.IsCommon) (h' : m'.IsCommon) (hlt : m.parts < m'.parts) :
    m.migrationStamp.toList < m'.migrationStamp.toList := by
  obtain ⟨hyear, hmonth, hday, hhour, hminute, hsecond⟩ := h.bounds
  obtain ⟨hyear', hmonth', hday', hhour', hminute', hsecond'⟩ := h'.bounds
  rw [h.toList_migrationStamp, h'.toList_migrationStamp]
  rw [lastDigits_append_lt_iff hyear hyear', lastDigits_append_lt_iff hmonth hmonth',
    lastDigits_append_lt_iff hday hday', append_lt_append_iff (by simp),
    append_lt_append_iff (by simp), lastDigits_lt_iff hhour hhour', lastDigits_inj hhour hhour',
    lastDigits_lt_iff hminute hminute', lastDigits_inj hminute hminute',
    lastDigits_lt_iff hsecond hsecond']
  simpa only [parts, List.cons_lt_cons_iff, List.not_lt_nil, and_false, or_false] using hlt

end Moment

/-- The name of a migration is before that of one that is made any number of seconds later, whatever
their tables are. -/
theorem Migration.newName_lt {m earlier later : Moment} {i j : ℕ} (hcommon : m.IsCommon) (h : i < j)
    (hi : m.plus? i = some earlier) (hj : m.plus? j = some later) (t u : String) :
    newName t earlier < newName u later := by
  obtain ⟨earlier', hi', hlt⟩ := Moment.exists_plus?_lt h hj
  obtain rfl := Option.some.inj (hi.symm.trans hi')
  have hearlier := hcommon.plus? hi
  have hlater := hcommon.plus? hj
  rw [String.lt_iff_toList_lt, newName, newName, String.toList_append, String.toList_append,
    append_lt_append_iff (by rw [hearlier.length_migrationStamp, hlater.length_migrationStamp])]
  exact .inl (hearlier.migrationStamp_lt hlater hlt)

end Scaffold
