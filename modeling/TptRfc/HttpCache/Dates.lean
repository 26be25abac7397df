import TptRfc.Doh.Cache
import TptRfc.HttpCache.Policy


/-!
# HTTP dates and the calendar

`parse_http_date` of `tpt-http-cache` and of `tpt-doh`, compared with the calendar.

* `calendarDays` counts the days before a date year by year and month by month, and `imfFixdate`
  writes a date; neither uses anything of the parsers.
* `parseHttpDate_imfFixdate`: the parser of the cache returns the seconds that are counted.
* `dateFields_imfFixdate`: the parser of DNS over HTTPS reads the right numbers.
* `parsers_of_calendar_date`: it makes 367 days too many of them.
-/

namespace TptRfc.HttpCache

open Lib Text List
open Doh (DateFields IsLeap civilDays civilSeconds seconds)

/-! ## The calendar -/

def yearLength (year : ℕ) : ℕ := if IsLeap year then 366 else 365

def monthLength (year month : ℕ) : ℕ :=
  if month = 2 then if IsLeap year then 29 else 28
  else if month = 4 ∨ month = 6 ∨ month = 9 ∨ month = 11 then 30 else 31

/-- The days of the first years, from the year zero on. -/
def daysOfYears : ℕ → ℕ
  | 0 => 0
  | year + 1 => daysOfYears year + yearLength year

/-- The days of the first months of a year. -/
def daysOfMonths (year : ℕ) : ℕ → ℕ
  | 0 => 0
  | month + 1 => daysOfMonths year month + monthLength year (month + 1)

/-- The days from the epoch to a date. -/
def calendarDays (f : DateFields) : ℤ :=
  daysOfYears f.year + daysOfMonths f.year (f.month - 1) + f.day - 1 - daysOfYears 1970

def calendarSeconds (f : DateFields) : ℤ :=
  calendarDays f * 86400 + f.hh * 3600 + f.mm * 60 + f.ss

/-- A real date from 1970 to 9999 and a time of day, possibly with a leap second. -/
structure IsDate (f : DateFields) : Prop where
  year : 1970 ≤ f.year ∧ f.year ≤ 9999
  month : 1 ≤ f.month ∧ f.month ≤ 12
  day : 1 ≤ f.day ∧ f.day ≤ monthLength f.year f.month
  time : f.hh < 24 ∧ f.mm < 60 ∧ f.ss ≤ 60

theorem monthLength_le (year month : ℕ) : monthLength year month ≤ 31 := by
  unfold monthLength
  split_ifs <;> omega

theorem daysOfYears_eq (year : ℕ) :
    (daysOfYears (year + 1) : ℤ) =
      365 * year + (year : ℤ) / 4 - (year : ℤ) / 100 + (year : ℤ) / 400 + 366 := by
  induction year with
  | zero => decide
  | succ year ih =>
    have hleap := Doh.leapDays_succ year (year + 1) (Nat.cast_succ year)
    rw [daysOfYears, Nat.cast_add, ih, yearLength]
    split_ifs at hleap ⊢ <;> push_cast at hleap ⊢ <;> linarith

theorem daysOfMonths_congr {year year' : ℕ} (h : IsLeap year ↔ IsLeap year') (month : ℕ) :
    daysOfMonths year month = daysOfMonths year' month := by
  induction month with
  | zero => rfl
  | succ month ih => simp only [daysOfMonths, ih, monthLength, h]

theorem daysOfMonths_eq (year : ℕ) {month : ℕ} (h : 1 ≤ month ∧ month ≤ 12) :
    daysOfMonths year (month - 1) =
      Doh.daysBeforeMonth month + if 2 < month ∧ IsLeap year then 1 else 0 := by
  have hall : ∀ m < 13, 1 ≤ m → daysOfMonths 2001 (m - 1) = Doh.daysBeforeMonth m ∧
      daysOfMonths 2000 (m - 1) = Doh.daysBeforeMonth m + if 2 < m then 1 else 0 := by decide
  obtain ⟨hcommon, hleap⟩ := hall month (by omega) h.1
  by_cases hl : IsLeap year
  · rw [daysOfMonths_congr (iff_of_true hl (by decide : IsLeap 2000)), hleap]
    simp only [hl, and_true]
  · rw [daysOfMonths_congr (iff_of_false hl (by decide : ¬ IsLeap 2001)), hcommon,
      if_neg fun hn => hl hn.2, add_zero]

theorem civilDays_eq {f : DateFields} (hyear : 1 ≤ f.year) (hmonth : 1 ≤ f.month ∧ f.month ≤ 12) :
    civilDays f = calendarDays f := by
  obtain ⟨year, hsucc⟩ := Nat.exists_eq_succ_of_ne_zero (Nat.ne_of_gt hyear)
  have hy : (f.year : ℤ) - 1 = year := by omega
  have hdays := daysOfYears_eq year
  have hepoch : (daysOfYears 1970 : ℤ) = 719528 := daysOfYears_eq 1969
  unfold civilDays calendarDays
  rw [daysOfMonths_eq _ hmonth, hy, hepoch, hsucc]
  push_cast
  linarith

theorem wrap_of_bounds {v : ℤ} (h : -2 ^ 63 ≤ v ∧ v < 2 ^ 63) : wrap v = v := by
  unfold wrap
  rw [Int.emod_eq_of_lt (by omega) (by omega)]
  ring

/-- The day count of the source on the years that it is used for, with the year that starts in
March as a number of cycles of 400 years and a year of the cycle. -/
theorem daysFromCivil_eq {y : ℤ} (era yoe : ℤ) {mp doy : ℤ} {m d : ℕ}
    (hera : 0 ≤ era ∧ era ≤ 10 ^ 6) (hyoe : 0 ≤ yoe ∧ yoe < 400)
    (hy : (if m ≤ 2 then y - 1 else y) = yoe + era * 400)
    (hmp : mp = if 2 < m then (m : ℤ) - 3 else m + 9) (hm : 1 ≤ m ∧ m ≤ 12) (hd : d ≤ 99)
    (hdoy : doy = (153 * mp + 2) / 5 + d - 1) :
    daysFromCivil y m d =
      era * 146097 + (365 * yoe + yoe / 4 - yoe / 100 + doy) - 719468 := by
  have hmp' : 0 ≤ mp ∧ mp ≤ 11 := by split_ifs at hmp <;> omega
  have hshift : (if m ≤ 2 then wrap (y - 1) else y) = yoe + era * 400 := by
    split_ifs at hy ⊢
    · rwa [wrap_of_bounds (by omega)]
    · exact hy
  have hdiv : (yoe + era * 400).tdiv 400 = era := by
    rw [Int.tdiv_eq_ediv_of_nonneg (by omega)]
    omega
  unfold daysFromCivil
  dsimp only
  rw [hshift, if_pos (by omega), hdiv, ← hmp,
    Int.tdiv_eq_ediv_of_nonneg (a := 153 * mp + 2) (by omega), ← hdoy,
    wrap_of_bounds (v := era * 400) (by omega), add_sub_cancel_right,
    wrap_of_bounds (v := yoe) (by omega), Int.tdiv_eq_ediv_of_nonneg hyoe.1,
    Int.tdiv_eq_ediv_of_nonneg hyoe.1, wrap_of_bounds (v := yoe * 365) (by omega),
    wrap_of_bounds (v := _ + yoe / 4) (by omega), wrap_of_bounds (v := _ - yoe / 100) (by omega),
    wrap_of_bounds (v := _ + doy) (by omega), wrap_of_bounds (v := era * 146097) (by omega),
    wrap_of_bounds (v := era * 146097 + _) (by omega), wrap_of_bounds (by omega)]
  ring

theorem cycle_days (y : ℤ) :
    y / 400 * 146097 + (365 * (y % 400) + y % 400 / 4 - y % 400 / 100) =
      365 * y + y / 4 - y / 100 + y / 400 := by
  omega

theorem daysFromCivil_eq_calendarDays {f : DateFields} (hyear : 1 ≤ f.year ∧ f.year ≤ 9999)
    (hmonth : 1 ≤ f.month ∧ f.month ≤ 12) (hday : f.day ≤ 99) :
    daysFromCivil f.year f.month f.day = calendarDays f := by
  have hleap := Doh.leapDays_succ (f.year - 1) f.year (by omega)
  have hall : ∀ m : ℕ, m < 13 → 1 ≤ m →
      ((153 * (if 2 < m then (m : ℤ) - 3 else m + 9) + 2) / 5 : ℤ) =
        Doh.daysBeforeMonth m + if 2 < m then -59 else 306 := by decide
  have hbefore := hall f.month (by omega) hmonth.1
  rw [← civilDays_eq hyear.1 hmonth]
  unfold civilDays
  dsimp only
  by_cases hm : 2 < f.month
  · rw [if_pos hm] at hbefore
    rw [daysFromCivil_eq (f.year / 400) (f.year % 400) (by omega) (by omega)
      (by rw [if_neg (by omega)]; omega) rfl hmonth hday rfl, if_pos hm, hbefore, if_pos hm]
    simp only [hm, true_and]
    linarith [cycle_days f.year]
  · rw [if_neg hm] at hbefore
    rw [daysFromCivil_eq ((f.year - 1) / 400) ((f.year - 1) % 400) (by omega)
      (by omega) (by rw [if_pos (by omega)]; omega) rfl hmonth hday rfl, if_neg hm, hbefore,
      if_neg hm, if_neg fun h => hm h.1]
    linarith [cycle_days (f.year - 1)]

/-! ## Texts -/

def timeText (f : DateFields) : List Char :=
  [':'].intercalate [padded 2 f.hh, padded 2 f.mm, padded 2 f.ss]

def imfWords (weekday : List Char) (f : DateFields) : List (List Char) :=
  [weekday ++ [','], padded 2 f.day, monthNames.getD (f.month - 1) [], padded 4 f.year,
    timeText f, "GMT".toList]

/-- The text of a date as `IMF-fixdate`. -/
def imfFixdate (weekday : List Char) (f : DateFields) : List Char :=
  [' '].intercalate (imfWords weekday f)

variable {f : DateFields} {weekday : List Char} {c : Char}

theorem digit_of_mem_padded {k n : ℕ} (h : c ∈ padded k n) :
    0x30 ≤ c.toNat ∧ c.toNat ≤ 0x39 := by
  obtain h | h := mem_append.mp h
  · rw [eq_of_mem_replicate h]
    decide
  · exact digit_of_mem_toDigits h

theorem ofDigitChars_padded (k n : ℕ) : Nat.ofDigitChars 10 (padded k n) 0 = n := by
  have hzeros (j : ℕ) : Nat.ofDigitChars 10 (replicate j '0') 0 = 0 := by
    induction j with
    | zero => rfl
    | succ j ih => exact ih
  exact (Nat.ofDigitChars_append 0).trans ((hzeros _).symm ▸ Nat.ofDigitChars_ten_toDigits)

theorem padded_ne_nil (k n : ℕ) : padded k n ≠ [] :=
  append_ne_nil_of_right_ne_nil _ Nat.toDigits_ne_nil

theorem parse_padded {max : ℕ} (k : ℕ) {n : ℕ} (h : n ≤ max) :
    parseUnsigned max (encode (padded k n)) = some n ∧
      parseSigned max (encode (padded k n)) = some (n : ℤ) := by
  have := @parseUnsigned_digits max _ (padded_ne_nil k n) (fun c => digit_of_mem_padded)
    (by rwa [ofDigitChars_padded])
  rwa [ofDigitChars_padded] at this

theorem not_isWhitespace_of_digit (h : 0x30 ≤ c.toNat ∧ c.toNat ≤ 0x3a) :
    isWhitespace c = false := by
  have hall : ∀ w ∈ whitespace, ¬ (0x30 ≤ w.toNat ∧ w.toNat ≤ 0x3a) := by
    simp [whitespace]
  exact decide_eq_false fun hc => hall c hc h

theorem mem_timeText (h : c ∈ timeText f) : 0x30 ≤ c.toNat ∧ c.toNat ≤ 0x3a := by
  obtain h | ⟨text, ht, hc⟩ := mem_intercalate h
  · rw [mem_singleton.mp h]
    decide
  · have : 0x30 ≤ c.toNat ∧ c.toNat ≤ 0x39 := by
      simp only [mem_cons, not_mem_nil, or_false] at ht
      rcases ht with rfl | rfl | rfl <;> exact digit_of_mem_padded hc
    omega

theorem mem_imfWords (hw : weekday ∈ weekdays) (hm : f.month ≤ 12) {word : List Char}
    (hword : word ∈ imfWords weekday f) :
    word ≠ [] ∧ ∀ c ∈ word, isWhitespace c = false := by
  have hdays : ∀ w ∈ weekdays, (w ++ [',']).all (!isWhitespace ·) := by decide
  have hmonths : ∀ m < 12, monthNames.getD m [] ≠ [] ∧
      (monthNames.getD m []).all (!isWhitespace ·) := by decide
  have hplain {text : List Char} (h : text.all (!isWhitespace ·)) (c : Char) (hc : c ∈ text) :
      isWhitespace c = false := by
    simpa using all_eq_true.mp h c hc
  have hdigits (k n : ℕ) (c : Char) (hc : c ∈ padded k n) : isWhitespace c = false := by
    have := digit_of_mem_padded hc
    exact not_isWhitespace_of_digit (by omega)
  simp only [imfWords, mem_cons, not_mem_nil, or_false] at hword
  rcases hword with rfl | rfl | rfl | rfl | rfl | rfl
  · exact ⟨by simp, hplain (hdays weekday hw)⟩
  · exact ⟨padded_ne_nil _ _, hdigits _ _⟩
  · exact (hmonths _ (by omega)).imp_right hplain
  · exact ⟨padded_ne_nil _ _, hdigits _ _⟩
  · exact ⟨by simp [timeText], fun c hc => not_isWhitespace_of_digit (mem_timeText hc)⟩
  · exact ⟨by decide, hplain (by decide)⟩

theorem trimBy_imfFixdate (hw : weekday ∈ weekdays) :
    trimBy isWhitespace (imfFixdate weekday f) = imfFixdate weekday f := by
  have hdays : ∀ w ∈ weekdays, w.head?.any (!isWhitespace ·) := by decide
  have hhead := hdays weekday hw
  apply trimBy_eq_self
  · intro b hb
    cases weekday with
    | nil => cases hhead
    | cons a rest =>
      simp only [imfFixdate, imfWords, intercalate_cons_cons, cons_append, head?_cons] at hb
      cases hb
      simpa using hhead
  · intro b hb
    simp [imfFixdate, imfWords, getLast?_append, getLast?_cons] at hb
    subst hb
    decide

theorem words_imfFixdate (hw : weekday ∈ weekdays) (hm : f.month ≤ 12) {p : Char → Bool}
    (hsep : p ' ') (hp : ∀ c, p c → isWhitespace c) :
    (imfFixdate weekday f).splitOnP p = imfWords weekday f := by
  refine splitOnP_intercalate hsep (fun word hword c hc => ?_) (by simp [imfWords])
  have hplain := (mem_imfWords hw hm hword).2 c hc
  by_contra h
  rw [hp c (by simpa using h)] at hplain
  cases hplain

theorem monthNames_lower {m : ℕ} (h : 1 ≤ m ∧ m ≤ 12) :
    months.idxOf? (lower (monthNames.getD (m - 1) [])) = some (m - 1) := by
  have hall : ∀ m < 12, months.idxOf? (lower (monthNames.getD m [])) = some m := by decide
  exact hall _ (by omega)

theorem dateFields_imfFixdate (hw : weekday ∈ weekdays) (hf : IsDate f) :
    Doh.dateFields (imfFixdate weekday f) = some f := by
  obtain ⟨hyear, hmonth, hday, htime⟩ := hf
  have hwords : (imfFixdate weekday f).splitOn ' ' = imfWords weekday f :=
    words_imfFixdate hw hmonth.2 (by decide) fun c hc => by rw [eq_of_beq hc]; decide
  have hparts : (timeText f).splitOn ':' = [padded 2 f.hh, padded 2 f.mm, padded 2 f.ss] := by
    refine splitOn_intercalate ':' (fun l hl h => ?_) (by simp)
    simp only [mem_cons, not_mem_nil, or_false] at hl
    rcases hl with rfl | rfl | rfl <;> exact absurd (digit_of_mem_padded h).2 (by decide)
  have hmax := monthLength_le f.year f.month
  have hparse (k : ℕ) {n : ℕ} (hn : n < 2 ^ 32) : Doh.parseU64 (padded k n) = some n :=
    (parse_padded k (by omega)).1
  rw [Doh.dateFields, Doh.trim, trimBy_imfFixdate hw, hwords]
  simp only [imfWords, hparts]
  rw [if_neg (by decide), hparse 2 (by omega), hparse 4 (by omega), hparse 2 (by omega),
    hparse 2 (by omega), hparse 2 (by omega),
    show Doh.months.idxOf? _ = _ from monthNames_lower hmonth]
  simp [Nat.sub_add_cancel hmonth.1]

theorem splitOnce_of_notMem {sep : Char} {word rest : List Char} (h : sep ∉ word) :
    splitOnce sep (word ++ sep :: rest) = (word, some rest) := by
  have hword : ∀ c ∈ word, decide (c ≠ sep) := fun c hc => by
    simpa using fun hcs : c = sep => h (hcs ▸ hc)
  obtain ⟨htake, hdrop⟩ := @takeWhile_append_of_stop _ _ _ (sep :: rest) hword (by simp)
  rw [splitOnce, htake, hdrop, if_pos (by simp)]
  rfl

theorem parseTime_timeText (h : f.hh < 24 ∧ f.mm < 60 ∧ f.ss ≤ 60) :
    parseTime (timeText f) = some (f.hh, f.mm, f.ss) := by
  have hcolon (n : ℕ) : ':' ∉ padded 2 n := fun hc =>
    absurd (digit_of_mem_padded hc).2 (by decide)
  have hparse {n : ℕ} (hn : n < 99) : parseU32 (padded 2 n) = some n :=
    (parse_padded 2 (by omega)).1
  have htext : timeText f = padded 2 f.hh ++ ':' :: (padded 2 f.mm ++ ':' :: padded 2 f.ss) := by
    simp [timeText]
  rw [parseTime, htext, splitOnce_of_notMem (hcolon _), hparse (by omega)]
  simp only [Option.bind_eq_bind, Option.bind_some, splitOnce_of_notMem (hcolon _),
    hparse (n := f.mm) (by omega), hparse (n := f.ss) (by omega)]
  rw [if_neg (by omega)]

theorem calendarDays_bounds (hf : IsDate f) : 0 ≤ calendarDays f ∧ calendarDays f < 3000000 := by
  obtain ⟨hyear, hmonth, hday, -⟩ := hf
  have hmax := monthLength_le f.year f.month
  have hbefore : ∀ m < 13, Doh.daysBeforeMonth m ≤ 334 := by decide
  have := hbefore f.month (by omega)
  rw [← civilDays_eq (by omega) hmonth, civilDays]
  split <;> omega

theorem parseHttpDate_imfFixdate (hw : weekday ∈ weekdays) (hf : IsDate f) :
    parseHttpDate (imfFixdate weekday f) = some (seconds (calendarSeconds f)) := by
  have hdays := calendarDays_bounds hf
  obtain ⟨hyear, hmonth, hday, htime⟩ := hf
  have hmax := monthLength_le f.year f.month
  have htokens : splitWhitespace (imfFixdate weekday f) = imfWords weekday f := by
    rw [splitWhitespace, words_imfFixdate hw hmonth.2 (by decide) fun _ h => h, filter_eq_self]
    exact fun word hword => by simpa using (mem_imfWords hw hmonth.2 hword).1
  have hhyphen : '-' ∉ padded 2 f.day := fun hc => absurd (digit_of_mem_padded hc).1 (by decide)
  have hgmt : gmtDate (imfWords weekday f) =
      dateOf (padded 2 f.day) (monthNames.getD (f.month - 1) []) (padded 4 f.year)
        (timeText f) := by
    simp [gmtDate, imfWords, hhyphen]
  have hy : parseYear (padded 4 f.year) = some (f.year : ℤ) := by
    rw [parseYear, parseI64, (parse_padded 4 (by omega)).2, Option.map_some, if_neg (by omega)]
  have hd : parseU32 (padded 2 f.day) = some f.day := (parse_padded 2 (by omega)).1
  have hsecs : dateToSecs f.year f.month f.day (f.hh, f.mm, f.ss) =
      some (calendarSeconds f) := by
    rw [dateToSecs, if_pos (by omega),
      daysFromCivil_eq_calendarDays (by omega) hmonth (by omega)]
    dsimp only
    rw [wrap_of_bounds (v := _ * 86400) (by omega), wrap_of_bounds (v := _ + _ * 3600) (by omega),
      wrap_of_bounds (v := _ + _ * 60) (by omega), wrap_of_bounds (by omega), if_neg (by omega)]
    rfl
  rw [parseHttpDate, trim, trimBy_imfFixdate hw, htokens,
    if_neg (by simp [imfFixdate, imfWords]), if_pos (by simp [imfWords]; decide), hgmt, dateOf, hy,
    monthNumber, monthNames_lower hmonth, hd, parseTime_timeText htime, Option.map_some,
    Nat.sub_add_cancel hmonth.1]
  simp only [Option.bind_eq_bind, Option.bind_some, hsecs]
  rfl

/-- **The two parsers of HTTP dates.**  For a real date from 1970 to 9999, that of the cache
returns its seconds from the epoch, and that of DNS over HTTPS is 367 days late. -/
theorem parsers_of_calendar_date (checks : Bool) (hw : weekday ∈ weekdays) (hf : IsDate f) :
    parseHttpDate (imfFixdate weekday f) = some (seconds (calendarSeconds f)) ∧
      Doh.parseHttpDate checks (imfFixdate weekday f) =
        .ok (some (seconds (calendarSeconds f + 367 * 86400))) := by
  refine ⟨parseHttpDate_imfFixdate hw hf, ?_⟩
  have hdays := calendarDays_bounds hf
  have hfields := dateFields_imfFixdate hw hf
  obtain ⟨hyear, hmonth, hday, htime⟩ := hf
  have hmax := monthLength_le f.year f.month
  have hsecs : civilSeconds f = calendarSeconds f := by
    rw [civilSeconds, civilDays_eq (by omega) hmonth, calendarSeconds]
  rw [Doh.parseHttpDate_late hfields ⟨by omega, hmonth, by omega, by omega, by omega, by omega⟩
    (by rw [hsecs, calendarSeconds]; omega), Doh.httpDate, hfields, Option.map_some,
    Option.map_some, hsecs, seconds, seconds, seconds, ← add_mul]

def leapDay : DateFields := ⟨29, 2, 2024, 0, 0, 0⟩

theorem parsers_of_leap_day :
    parseHttpDate "Thu, 29 Feb 2024 00:00:00 GMT".toList = some (seconds 1709164800) ∧
      Doh.parseHttpDate true "Thu, 29 Feb 2024 00:00:00 GMT".toList =
        .ok (some (seconds (1709164800 + 367 * 86400))) := by
  have htext : imfFixdate "Thu".toList leapDay = "Thu, 29 Feb 2024 00:00:00 GMT".toList := by
    decide
  have hsecs : calendarSeconds leapDay = 1709164800 := by
    rw [calendarSeconds, ← civilDays_eq (by decide) (by decide)]
    decide
  obtain ⟨hcache, hdoh⟩ := @parsers_of_calendar_date leapDay "Thu".toList true (by decide)
    ⟨by decide, by decide, by decide, by decide⟩
  rw [htext, hsecs] at hcache hdoh
  exact ⟨hcache, hdoh⟩

def epoch : DateFields := ⟨1, 1, 1970, 0, 0, 0⟩

/-- The epoch itself, which is read as a date in 1971. -/
theorem doh_epoch_late :
    imfFixdate "Thu".toList epoch = "Thu, 01 Jan 1970 00:00:00 GMT".toList ∧
      Doh.parseHttpDate true "Thu, 01 Jan 1970 00:00:00 GMT".toList =
        .ok (some (seconds (367 * 86400))) ∧ calendarSeconds epoch = 0 := by
  refine ⟨by decide, by decide +kernel, ?_⟩
  rw [calendarSeconds, ← civilDays_eq (by decide) (by decide)]
  decide

end TptRfc.HttpCache
