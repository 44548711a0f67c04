import LeasePool.Proofs.Text.Digits
import LeasePool.Proofs.Time.Calendar
import LeasePool.Time.Stamp

/-!
# Written times are read again

A time is written in UTC, with six digits of the second, and what is written of a time in the
years 0 to 9999 is read as that time, less what is beyond the microsecond. Reading goes through
the text from left to right, so does the proof, a part at a time.
-/

namespace LeasePool

namespace Stamp

open Text

/-! ## The parts of the text -/

/-- A number that stands at the beginning is read from there. -/
theorem number?_padded {width n : Nat} {rest : List Char} (positive : 0 < width)
    (small : n < 10 ^ width) : number? width (padded width n ++ rest) = some (n, rest) := by
  have length := length_padded positive small
  have head : (padded width n ++ rest).take width = padded width n := List.take_left' length
  have tail : (padded width n ++ rest).drop width = rest := List.drop_left' length
  rw [number?, head, tail, if_pos length, digits?_padded]
  rfl

/-- Six digits are microseconds. -/
theorem fraction?_padded {n : Nat} (small : n < 10 ^ 6) :
    fraction? ('.' :: (padded 6 n ++ ['Z'])) = some (n * 1000, ['Z']) := by
  have digits : ∀ c ∈ padded 6 n, c.isDigit = true := fun c hc => isDigit_of_mem_padded hc
  have length := length_padded (by decide) small
  have head : (padded 6 n ++ ['Z']).takeWhile Char.isDigit = padded 6 n := by
    rw [List.takeWhile_append_of_pos digits]
    simp
  have tail : (padded 6 n ++ ['Z']).dropWhile Char.isDigit = ['Z'] := by
    rw [List.dropWhile_append_of_pos digits]
    simp
  have nine : (padded 6 n ++ List.replicate 9 '0').take 9 =
      padded 6 n ++ List.replicate 3 '0' := by
    rw [List.take_append, length, List.take_of_length_le (by rw [length]; decide)]
    rfl
  have value : Nat.ofDigitChars 10 (padded 6 n) 0 = n := ofDigitChars_padded
  have nonempty : padded 6 n ≠ [] := List.ne_nil_of_length_pos (by rw [length]; decide)
  simp only [fraction?, head, tail, nine, Nat.ofDigitChars_append, value]
  rw [Nat.ofDigitChars_replicate_zero, Nat.mul_comm]

/-- When the first part can be read, reading goes on with the rest. -/
theorem bind_of_eq_some {α β : Type} {x : Option α} {a : α} {f : α → Option β}
    (h : x = some a) : x >>= f = f a := by
  rw [h]
  rfl

/-! ## The whole text -/

/-- The text of a date, a time of the day and microseconds, in UTC. -/
def written (date : Date) (hour minute second micros : Nat) : List Char :=
  padded 4 date.year.natAbs ++ '-' :: padded 2 date.month ++ '-' :: padded 2 date.day
    ++ 'T' :: padded 2 hour ++ ':' :: padded 2 minute ++ ':' :: padded 2 second
    ++ '.' :: padded 6 micros ++ ['Z']

/-- The text of a date in the years 0 to 9999 and of a time of the day **is read as the time it
is of**. -/
theorem parseChars?_written {date : Date} {hour minute second micros : Nat}
    (valid : date.isValid = true) (early : 0 ≤ date.year) (late : date.year < 10000)
    (hour_lt : hour < 24) (minute_lt : minute < 60) (second_lt : second < 60)
    (micros_lt : micros < 10 ^ 6) :
    parseChars? (written date hour minute second micros) =
      some (utc (.ofDay date.dayNumber
        ((hour * 3600 + minute * 60 + second : Int) * 1000000000 + (micros * 1000 : Nat)))) := by
  obtain ⟨month, day⟩ := Date.day_lt_of_isValid valid
  have year : (date.year.natAbs : Int) = date.year := Int.natAbs_of_nonneg early
  have regular : ¬ second = 60 := by omega
  have hourOk : ¬ 23 < hour := by omega
  have minuteOk : ¬ 59 < minute := by omega
  have secondOk : ¬ 59 < second := by omega
  have positive : 0 < 2 := by decide
  have dash : ∀ s, after? '-' ('-' :: s) = some s := fun _ => rfl
  have colon : ∀ s, after? ':' (':' :: s) = some s := fun _ => rfl
  simp only [written, List.append_assoc, List.cons_append]
  unfold parseChars?
  refine (bind_of_eq_some (number?_padded (by decide) (by omega))).trans ?_
  refine (bind_of_eq_some (dash _)).trans ?_
  refine (bind_of_eq_some (number?_padded positive month)).trans ?_
  refine (bind_of_eq_some (dash _)).trans ?_
  refine (bind_of_eq_some (number?_padded positive day)).trans ?_
  refine (if_pos (by decide)).trans ?_
  refine (bind_of_eq_some (number?_padded positive (by omega))).trans ?_
  refine (bind_of_eq_some (colon _)).trans ?_
  refine (bind_of_eq_some (number?_padded positive (by omega))).trans ?_
  refine (bind_of_eq_some (colon _)).trans ?_
  refine (bind_of_eq_some (number?_padded positive (by omega))).trans ?_
  refine (bind_of_eq_some (fraction?_padded micros_lt)).trans ?_
  refine (bind_of_eq_some (a := (0, [])) rfl).trans ?_
  simp only [year, regular, valid, hourOk, minuteOk, secondOk, if_false, false_and, ne_eq,
    not_true_eq_false, Bool.not_true, Bool.false_eq_true, or_self]
  simp only [utc, Instant.plus, Int.neg_zero, Int.zero_mul, Int.add_zero]

/-- An instant is written as its date and its time of the day. -/
theorem instantText_eq_written {t : Instant} (early : 0 ≤ t.date.year) :
    instantText t = written t.date (t.timeOfDay / 1000000000 / 3600)
      (t.timeOfDay / 1000000000 / 60 % 60) (t.timeOfDay / 1000000000 % 60)
      (t.timeOfDay / 1000 % 1000000) := by
  simp only [instantText, yearText, written, if_neg (Int.not_lt.2 early), List.nil_append]

/-- What is written of an instant in the years 0 to 9999 is read as its whole microseconds. -/
theorem parseChars?_instantText {t : Instant} (H : t.HasFourDigitYear) :
    parseChars? (instantText t) = some (utc t.floorMicros) := by
  obtain ⟨begins, ends⟩ := H.year_date
  obtain ⟨number, valid⟩ : t.date.dayNumber = t.day ∧ t.date.isValid = true :=
    Date.dayNumber_ofDayNumber
  have time : t.timeOfDay < 86400000000000 ∧
      t.nanoseconds = t.nanoseconds / Instant.perDay * Instant.perDay + t.timeOfDay := by
    simp only [Instant.timeOfDay, Instant.perDay]
    omega
  have seconds : ((t.timeOfDay / 1000000000 / 3600 : Nat) * 3600 +
      (t.timeOfDay / 1000000000 / 60 % 60 : Nat) * 60 + (t.timeOfDay / 1000000000 % 60 : Nat) :
        Int) = (t.timeOfDay / 1000000000 : Nat) := by
    omega
  have micros : ((t.timeOfDay / 1000000000 : Nat) * 1000000000 +
      (t.timeOfDay / 1000 % 1000000 * 1000 : Nat) : Int) = (t.timeOfDay / 1000 * 1000 : Nat) := by
    omega
  rw [instantText_eq_written begins, parseChars?_written valid begins ends (by omega) (by omega)
    (by omega) (by omega), number, seconds, micros]
  congr 2
  simp only [Instant.ofDay, Instant.day, Int.add_sub_cancel, Instant.floorMicros,
    Instant.mk.injEq]
  simp only [Instant.perDay] at time ⊢
  omega

/-- Nothing beyond the microsecond is written. -/
theorem instantText_floorMicros {t : Instant} : instantText t.floorMicros = instantText t := by
  have seconds : t.timeOfDay / 1000 * 1000 / 1000000000 = t.timeOfDay / 1000000000 := by
    omega
  have micros : t.timeOfDay / 1000 * 1000 / 1000 = t.timeOfDay / 1000 :=
    Nat.mul_div_cancel _ (by decide)
  simp only [instantText, Instant.date_floorMicros, Instant.timeOfDay_floorMicros, seconds, micros]

/-! ## Times -/

variable {s : Stamp}

/-- In UTC, the time is in one of the years 0 to 9999. -/
def HasFourDigitYear (s : Stamp) : Prop := s.instant.HasFourDigitYear

/-- The time that is stored is in the same year. -/
theorem HasFourDigitYear.stored (H : s.HasFourDigitYear) : s.stored.HasFourDigitYear :=
  Instant.HasFourDigitYear.floorMicros H

/-- What is written of such a time. -/
theorem HasFourDigitYear.text?_eq (H : s.HasFourDigitYear) :
    s.text? = some (String.ofList (instantText s.instant)) :=
  if_pos (Instant.HasFourDigitYear.inRange H)

/-- **What is written of a time is read as the time that is stored.** -/
theorem HasFourDigitYear.parse?_text (H : s.HasFourDigitYear) :
    parse? (String.ofList (instantText s.instant)) = some s.stored := by
  rw [parse?, String.toList_ofList]
  exact parseChars?_instantText H

/-- The text of a time is not empty. -/
theorem HasFourDigitYear.text_ne_empty (H : s.HasFourDigitYear) :
    String.ofList (instantText s.instant) ≠ "" := by
  intro empty
  have nothing : parse? "" = none := rfl
  rw [← empty, H.parse?_text] at nothing
  contradiction

end Stamp

end LeasePool
