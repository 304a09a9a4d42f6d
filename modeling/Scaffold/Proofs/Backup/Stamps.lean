import Mathlib
import Scaffold.Backup.Store

/-!
# The order of session names

Sessions are found again by their names, which are compared as texts. Stamps of different seconds
are ordered as the seconds are, because every part of a stamp has a fixed width. The numbers behind
stamps have no fixed width: the tenth one comes before the second one.
-/

namespace Scaffold

/-! ## Numbers of a fixed width -/

/-- The last digits of a number. -/
def lastDigits : ℕ → ℕ → List Char
  | 0, _ => []
  | width + 1, n => lastDigits width (n / 10) ++ [(n % 10).digitChar]

@[simp] theorem length_lastDigits (width n : ℕ) : (lastDigits width n).length = width := by
  induction width generalizing n with
  | zero => rfl
  | succ width ih => simp [lastDigits, ih]

theorem append_lt_append_iff {a b s t : List Char} (h : a.length = b.length) :
    a ++ s < b ++ t ↔ a < b ∨ a = b ∧ s < t := by
  induction a generalizing b with
  | nil =>
    obtain rfl := List.eq_nil_of_length_eq_zero h.symm
    simp
  | cons x a ih =>
    cases b with
    | nil => simp at h
    | cons y b =>
      rw [List.cons_append, List.cons_append, List.cons_lt_cons_iff, List.cons_lt_cons_iff,
        ih (by simpa using h), List.cons.injEq]
      tauto

theorem digitChar_lt_iff {a b : ℕ} (ha : a < 10) (hb : b < 10) : a.digitChar < b.digitChar ↔ a < b := by
  interval_cases a <;> interval_cases b <;> decide

theorem lastDigits_inj {width a b : ℕ} (ha : a < 10 ^ width) (hb : b < 10 ^ width) :
    lastDigits width a = lastDigits width b ↔ a = b := by
  refine ⟨fun h ↦ ?_, fun h ↦ h ▸ rfl⟩
  induction width generalizing a b with
  | zero => omega
  | succ width ih =>
    obtain ⟨hinit, hlast⟩ := List.append_inj' h rfl
    have hinit := ih (by omega) (by omega) hinit
    have hmod := Nat.mod_lt a (show 10 > 0 by decide)
    have hmod' := Nat.mod_lt b (show 10 > 0 by decide)
    have hlast : (a % 10).digitChar = (b % 10).digitChar := List.singleton_inj.1 hlast
    have hno : ¬a % 10 < b % 10 := fun hlt ↦
      absurd ((digitChar_lt_iff hmod hmod').2 hlt) (by simp [hlast])
    have hno' : ¬b % 10 < a % 10 := fun hlt ↦
      absurd ((digitChar_lt_iff hmod' hmod).2 hlt) (by simp [hlast])
    omega

theorem lastDigits_lt_iff {width a b : ℕ} (ha : a < 10 ^ width) (hb : b < 10 ^ width) :
    lastDigits width a < lastDigits width b ↔ a < b := by
  induction width generalizing a b with
  | zero => simp_all
  | succ width ih =>
    have hdiv : a / 10 < 10 ^ width := by omega
    have hdiv' : b / 10 < 10 ^ width := by omega
    rw [lastDigits, lastDigits, append_lt_append_iff (by simp), ih hdiv hdiv',
      lastDigits_inj hdiv hdiv', List.cons_lt_cons_iff,
      digitChar_lt_iff (Nat.mod_lt _ (by decide)) (Nat.mod_lt _ (by decide))]
    simp only [List.not_lt_nil, and_false, or_false]
    omega

/-- Texts that start with a number of a fixed width are ordered by the number first. -/
theorem lastDigits_append_lt_iff {width a b : ℕ} (ha : a < 10 ^ width) (hb : b < 10 ^ width)
    (c : Char) (s t : List Char) :
    lastDigits width a ++ c :: s < lastDigits width b ++ c :: t ↔ a < b ∨ a = b ∧ s < t := by
  rw [append_lt_append_iff (by simp), lastDigits_lt_iff ha hb, lastDigits_inj ha hb,
    List.cons_lt_cons_iff]
  simp

theorem toList_twoDigits {n : ℕ} (h : n < 100) : (Value.twoDigits n).toList = lastDigits 2 n := by
  have hall : ∀ n < 100, (Value.twoDigits n).toList = lastDigits 2 n := by decide +kernel
  exact hall n h

theorem toList_year {n : ℕ} (h : 1000 ≤ n) (h' : n ≤ 9999) :
    (toString n).toList = lastDigits 4 n := by
  have hdigits : (toString n).toList = Nat.toDigits 10 n := Nat.toList_repr
  rw [hdigits, Nat.toDigits_of_base_le (by decide) (by omega),
    Nat.toDigits_of_base_le (by decide) (by omega), Nat.toDigits_of_base_le (by decide) (by omega),
    Nat.toDigits_of_lt_base (by omega)]
  have hlast : n / 10 / 10 / 10 % 10 = n / 10 / 10 / 10 := by omega
  simp [lastDigits, hlast]

/-! ## Stamps -/

namespace Moment

/-- The numbers of a moment, the year first. -/
def parts (m : Moment) : List ℕ :=
  [m.date.year, m.date.month, m.date.day, m.hour, m.minute, m.second]

theorem parts_injective {m m' : Moment} (h : m.parts = m'.parts) : m = m' := by
  obtain ⟨⟨y, mo, d⟩, ho, mi, s⟩ := m
  obtain ⟨⟨y', mo', d'⟩, ho', mi', s'⟩ := m'
  simp only [parts, List.cons.injEq, and_true] at h
  obtain ⟨rfl, rfl, rfl, rfl, rfl, rfl⟩ := h
  rfl

/-- A second of the calendar in a year of four digits. -/
structure IsCommon (m : Moment) : Prop where
  year : 1000 ≤ m.date.year ∧ m.date.year ≤ 9999
  month : 1 ≤ m.date.month ∧ m.date.month ≤ 12
  day : 1 ≤ m.date.day ∧ m.date.day ≤ Day.length m.date.year m.date.month
  hour : m.hour < 24
  minute : m.minute < 60
  second : m.second < 60

instance (m : Moment) : Decidable m.IsCommon :=
  decidable_of_iff ((1000 ≤ m.date.year ∧ m.date.year ≤ 9999) ∧
      (1 ≤ m.date.month ∧ m.date.month ≤ 12) ∧
      (1 ≤ m.date.day ∧ m.date.day ≤ Day.length m.date.year m.date.month) ∧ m.hour < 24 ∧
      m.minute < 60 ∧ m.second < 60)
    ⟨fun h ↦ ⟨h.1, h.2.1, h.2.2.1, h.2.2.2.1, h.2.2.2.2.1, h.2.2.2.2.2⟩,
      fun h ↦ ⟨h.year, h.month, h.day, h.hour, h.minute, h.second⟩⟩

variable {m m' : Moment}

theorem IsCommon.day_le (h : m.IsCommon) : m.date.day ≤ 31 := by
  refine h.day.2.trans ?_
  unfold Day.length
  split
  · split <;> decide
  all_goals decide

/-- Four digits are enough for the year, and two for every other number. -/
theorem IsCommon.bounds (h : m.IsCommon) : m.date.year < 10 ^ 4 ∧ m.date.month < 10 ^ 2 ∧
    m.date.day < 10 ^ 2 ∧ m.hour < 10 ^ 2 ∧ m.minute < 10 ^ 2 ∧ m.second < 10 ^ 2 := by
  have hyear := h.year.2
  have hmonth := h.month.2
  have hday := h.day_le
  have hhour := h.hour
  have hminute := h.minute
  have hsecond := h.second
  omega

theorem IsCommon.toList_backupStamp (h : m.IsCommon) : m.backupStamp.toList =
    lastDigits 4 m.date.year ++ '-' :: (lastDigits 2 m.date.month ++ '-' ::
      (lastDigits 2 m.date.day ++ '_' :: (lastDigits 2 m.hour ++ '-' ::
        (lastDigits 2 m.minute ++ '-' :: lastDigits 2 m.second)))) := by
  have htext (s : String) : toString s = s := rfl
  obtain ⟨-, hmonth, hday, hhour, hminute, hsecond⟩ := h.bounds
  simp only [backupStamp, htext, String.toList_append]
  rw [toList_year h.year.1 h.year.2, toList_twoDigits hmonth, toList_twoDigits hday,
    toList_twoDigits hhour, toList_twoDigits hminute, toList_twoDigits hsecond]
  simp

theorem IsCommon.length_backupStamp (h : m.IsCommon) : m.backupStamp.toList.length = 19 := by
  simp [h.toList_backupStamp]

/-- Stamps are ordered as the moments are. -/
theorem IsCommon.backupStamp_lt_iff (h : m.IsCommon) (h' : m'.IsCommon) :
    m.backupStamp.toList < m'.backupStamp.toList ↔ m.parts < m'.parts := by
  obtain ⟨hyear, hmonth, hday, hhour, hminute, hsecond⟩ := h.bounds
  obtain ⟨hyear', hmonth', hday', hhour', hminute', hsecond'⟩ := h'.bounds
  rw [h.toList_backupStamp, h'.toList_backupStamp, parts, parts]
  rw [lastDigits_append_lt_iff hyear hyear', lastDigits_append_lt_iff hmonth hmonth',
    lastDigits_append_lt_iff hday hday', lastDigits_append_lt_iff hhour hhour',
    lastDigits_append_lt_iff hminute hminute', lastDigits_lt_iff hsecond hsecond']
  simp only [List.cons_lt_cons_iff, List.not_lt_nil, and_false, or_false]

theorem IsCommon.backupStamp_inj (h : m.IsCommon) (h' : m'.IsCommon) :
    m.backupStamp.toList = m'.backupStamp.toList ↔ m = m' := by
  refine ⟨fun heq ↦ parts_injective ?_, fun heq ↦ heq ▸ rfl⟩
  rcases lt_trichotomy m.parts m'.parts with hlt | heq' | hlt
  · exact absurd ((h.backupStamp_lt_iff h').2 hlt) (by simp [heq])
  · exact heq'
  · exact absurd ((h'.backupStamp_lt_iff h).2 hlt) (by simp [heq])

end Moment

namespace BackupStore

/-! ## Names -/

/-- What the `k`-th name of a stamp adds to it. -/
def suffix (k : ℕ) : List Char := if k = 0 then [] else '_' :: Nat.toDigits 10 k

theorem toList_sessionName (stamp : String) (k : ℕ) :
    (sessionName stamp k).toList = stamp.toList ++ suffix k := by
  have htext (s : String) : toString s = s := rfl
  have hdigits : (toString k).toList = Nat.toDigits 10 k := Nat.toList_repr
  by_cases hk : k = 0
  · simp [sessionName, suffix, hk]
  · simp only [sessionName, suffix, hk, htext, hdigits, beq_iff_eq, if_false, String.toList_append]
    simp

theorem suffix_injective {k k' : ℕ} (h : suffix k = suffix k') : k = k' := by
  by_cases hk : k = 0 <;> by_cases hk' : k' = 0
  · rw [hk, hk']
  · simp [suffix, hk, hk'] at h
  · simp [suffix, hk, hk'] at h
  · simp only [suffix, hk, hk', if_false, List.cons.injEq, true_and] at h
    simpa using congrArg (Nat.ofDigitChars 10 · 0) h

/-- Single digits are ordered as numbers are. -/
theorem suffix_lt {k k' : ℕ} (h : k < k') (h' : k' < 10) : suffix k < suffix k' := by
  have hall : ∀ k' < 10, ∀ k < k', suffix k < suffix k' := by decide
  exact hall k' h' k h

variable {m m' : Moment}

theorem sessionName_inj (h : m.IsCommon) (h' : m'.IsCommon) {k k' : ℕ} :
    sessionName m.backupStamp k = sessionName m'.backupStamp k' ↔ m = m' ∧ k = k' := by
  refine ⟨fun heq ↦ ?_, by rintro ⟨rfl, rfl⟩; rfl⟩
  replace heq := congrArg String.toList heq
  rw [toList_sessionName, toList_sessionName] at heq
  obtain ⟨hstamp, hsuffix⟩ := List.append_inj heq (by rw [h.length_backupStamp, h'.length_backupStamp])
  exact ⟨(h.backupStamp_inj h').1 hstamp, suffix_injective hsuffix⟩

/-- Names of sessions are ordered by their moments, and those of one second by what is added. -/
theorem sessionName_lt_iff (h : m.IsCommon) (h' : m'.IsCommon) {k k' : ℕ} :
    sessionName m.backupStamp k < sessionName m'.backupStamp k' ↔
      m.parts < m'.parts ∨ m = m' ∧ suffix k < suffix k' := by
  rw [String.lt_iff_toList_lt, toList_sessionName, toList_sessionName,
    append_lt_append_iff (by rw [h.length_backupStamp, h'.length_backupStamp]),
    h.backupStamp_lt_iff h', h.backupStamp_inj h']

/-- The first free name of a stamp is the next one, if the names in use are the ones before. -/
theorem freeName_eq (h : m.IsCommon) {used : List String} {n : ℕ}
    (hused : ∀ k, sessionName m.backupStamp k ∈ used ↔ k < n) :
    freeName used m.backupStamp = sessionName m.backupStamp n := by
  have hnames : ((List.range n).map (sessionName m.backupStamp)).Nodup :=
    List.nodup_range.map fun k k' hk ↦ ((sessionName_inj h h).1 hk).2
  have hlength : n ≤ used.length := by
    have hsub : (List.range n).map (sessionName m.backupStamp) ⊆ used := by
      intro name hname
      obtain ⟨k, hk, rfl⟩ := List.mem_map.1 hname
      exact (hused k).2 (List.mem_range.1 hk)
    simpa using (List.subperm_of_subset hnames hsub).length_le
  have hfind : (List.range (used.length + 1)).find?
      (fun k ↦ !used.contains (sessionName m.backupStamp k)) = some n := by
    rw [List.find?_range_eq_some]
    refine ⟨by simp [hused], by simpa using by omega, fun k hk ↦ by simp [hused, hk]⟩
  rw [freeName, hfind]
  rfl

/-! ## Names in the order of creation -/

/-- Moments with the names that sessions get at them, one after the other: each gets the first name
of its stamp that none before it has got. -/
inductive Numbered : List (Moment × String) → Prop
  | none : Numbered []
  | next {l : List (Moment × String)} (h : Numbered l) (m : Moment) :
      Numbered (l ++ [(m, sessionName m.backupStamp ((l.map Prod.fst).count m))])

variable {l : List (Moment × String)}

/-- The names of a stamp are given away without gaps. -/
theorem Numbered.mem_iff (h : Numbered l) (hcommon : ∀ x ∈ l, x.1.IsCommon) (hm : m.IsCommon) {k : ℕ} :
    sessionName m.backupStamp k ∈ l.map Prod.snd ↔ k < (l.map Prod.fst).count m := by
  induction h with
  | none => simp
  | @next l _ m' ih =>
    have hm' : m'.IsCommon := hcommon _ (List.mem_append_right _ (List.mem_singleton_self _))
    simp only [List.map_append, List.map_cons, List.map_nil, List.mem_append, List.mem_singleton,
      List.count_append, ih fun x hx ↦ hcommon x (List.mem_append_left _ hx), sessionName_inj hm hm']
    by_cases heq : m = m'
    · subst heq
      simp only [true_and, List.count_singleton_self]
      omega
    · simp [heq, Ne.symm heq]

theorem Numbered.nodup (h : Numbered l) (hcommon : ∀ x ∈ l, x.1.IsCommon) :
    (l.map Prod.snd).Nodup := by
  induction h with
  | none => exact List.nodup_nil
  | @next l h m ih =>
    have hm : m.IsCommon := hcommon _ (List.mem_append_right _ (List.mem_singleton_self _))
    have hbefore : ∀ x ∈ l, x.1.IsCommon := fun x hx ↦ hcommon x (List.mem_append_left _ hx)
    rw [List.map_append, List.nodup_append]
    refine ⟨ih hbefore, List.nodup_singleton _, ?_⟩
    rintro name hname _ hlast rfl
    obtain rfl := List.mem_singleton.1 hlast
    exact lt_irrefl _ ((h.mem_iff hbefore hm).1 hname)

theorem Numbered.exists_of_mem (h : Numbered l) {x : Moment × String} (hx : x ∈ l) :
    ∃ k < (l.map Prod.fst).count x.1, x.2 = sessionName x.1.backupStamp k := by
  induction h with
  | none => simp at hx
  | @next l _ m ih =>
    simp only [List.map_append, List.count_append]
    rcases List.mem_append.1 hx with hx | hx
    · obtain ⟨k, hk, hname⟩ := ih hx
      exact ⟨k, by omega, hname⟩
    · obtain rfl := List.mem_singleton.1 hx
      exact ⟨_, by simp, rfl⟩

/-- Names are ordered as they were given if moments never go back and come up to ten times each; the
eleventh name of a second is out of order. -/
theorem Numbered.pairwise_lt_iff (h : Numbered l) (hcommon : ∀ x ∈ l, x.1.IsCommon)
    (hsorted : (l.map Prod.fst).Pairwise (·.parts ≤ ·.parts)) :
    (l.map Prod.snd).Pairwise (· < ·) ↔ ∀ m, (l.map Prod.fst).count m ≤ 10 := by
  induction h with
  | none => simp
  | @next l h m ih =>
    have hm : m.IsCommon := hcommon _ (List.mem_append_right _ (List.mem_singleton_self _))
    have hbefore : ∀ x ∈ l, x.1.IsCommon := fun x hx ↦ hcommon x (List.mem_append_left _ hx)
    rw [List.map_append, List.pairwise_append] at hsorted
    obtain ⟨hsorted, -, hlast⟩ := hsorted
    simp only [List.map_append, List.pairwise_append, ih hbefore hsorted, List.map_cons,
      List.map_nil, List.pairwise_singleton, true_and, List.mem_singleton, forall_eq,
      List.count_append]
    constructor
    · rintro ⟨hfew, hless⟩ m'
      by_cases heq : m' = m
      · subst heq
        rw [List.count_singleton_self]
        by_contra hmany
        have hten : (l.map Prod.fst).count m' = 10 := le_antisymm (hfew m') (by omega)
        have htwo := hless _ ((h.mem_iff hbefore hm).2 (show 2 < _ by omega))
        rw [hten, sessionName_lt_iff hm hm] at htwo
        exact absurd (htwo.resolve_left (lt_irrefl _)).2 (by decide)
      · simpa [List.count_singleton, Ne.symm heq] using hfew m'
    · intro hfew
      refine ⟨fun m' ↦ (Nat.le_add_right _ _).trans (hfew m'), fun name hname ↦ ?_⟩
      obtain ⟨x, hx, rfl⟩ := List.mem_map.1 hname
      obtain ⟨k, hk, hx'⟩ := h.exists_of_mem hx
      rw [hx', sessionName_lt_iff (hbefore x hx) hm]
      rcases (hlast x.1 (List.mem_map_of_mem hx) m (by simp)).lt_or_eq with hlt | heq
      · exact .inl hlt
      · have hsame := Moment.parts_injective heq
        have hcount := hfew m
        rw [List.count_singleton_self] at hcount
        rw [hsame] at hk
        exact .inr ⟨hsame, suffix_lt hk (by omega)⟩

end BackupStore

end Scaffold
