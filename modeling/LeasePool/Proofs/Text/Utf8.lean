import LeasePool.Text.Utf8
import Mathlib.Tactic.IntervalCases

/-!
# The bytes of a text are read as the text

Characters have one to four bytes. The first of them says how many follow, and which range the next
one is in where some of its values would write a character that has fewer bytes, or none at all.
What is between these bounds is read back, a byte at a time.
-/

namespace LeasePool.Text.Utf8

variable {b value more low high : Nat} {place : Place} {bytes : List UInt8}

/-! ## One byte -/

theorem feed_ascii (h : b < 0x80) : feed .between b = ([some (Char.ofNat b)], .between) := by
  simp [feed, h]

theorem feed_opening (h : 0x80 ≤ b) (ho : opening b = some place) :
    feed .between b = ([], place) := by
  simp [feed, Nat.not_lt.2 h, ho]

theorem feed_more (hl : low ≤ b) (hh : b ≤ high) :
    feed (.inside value (more + 1) low high) b =
      ([], .inside (value * 64 + (b - 0x80)) more 0x80 0xBF) := by
  simp [feed, hl, hh]

theorem feed_last (hl : low ≤ b) (hh : b ≤ high) :
    feed (.inside value 0 low high) b =
      ([some (Char.ofNat (value * 64 + (b - 0x80)))], .between) := by
  simp [feed, hl, hh]

/-- A byte that completes nothing. -/
theorem unitsFrom_of_feed_nil {before : Place} {n : Nat} (small : n < 256)
    (h : feed before n = ([], place)) :
    unitsFrom before (.ofNat n :: bytes) = unitsFrom place bytes := by
  rw [unitsFrom, UInt8.toNat_ofNat', Nat.mod_eq_of_lt small, h]
  rfl

/-- A byte that completes a character. -/
theorem unitsFrom_of_feed_char {before : Place} {n : Nat} {c : Char} (small : n < 256)
    (h : feed before n = ([some c], .between)) :
    unitsFrom before (.ofNat n :: bytes) = some c :: unitsFrom .between bytes := by
  rw [unitsFrom, UInt8.toNat_ofNat', Nat.mod_eq_of_lt small, h]
  rfl

/-! ## One character -/

/-- What the first byte of two announces. -/
theorem opening_two {n : Nat} (h : 2 ≤ n) (h' : n < 32) :
    opening (n + 0xC0) = some (.inside n 0 0x80 0xBF) := by
  interval_cases n <;> rfl

/-- What the first byte of three announces. -/
theorem opening_three {n : Nat} (h : n < 16) : opening (n + 0xE0) =
    some (.inside n 1 (if n = 0 then 0xA0 else 0x80) (if n = 0xD then 0x9F else 0xBF)) := by
  interval_cases n <;> rfl

/-- What the first byte of four announces. -/
theorem opening_four {n : Nat} (h : n < 5) : opening (n + 0xF0) =
    some (.inside n 2 (if n = 0 then 0x90 else 0x80) (if n = 4 then 0x8F else 0xBF)) := by
  interval_cases n <;> rfl

/-- **The bytes of a character are read as the character.** -/
theorem unitsFrom_utf8EncodeChar (c : Char) :
    unitsFrom .between (String.utf8EncodeChar c ++ bytes) = some c :: unitsFrom .between bytes := by
  have back : Char.ofNat c.val.toNat = c := Char.ofNat_toNat c
  have valid : c.val.toNat < 0xD800 ∨ 0xDFFF < c.val.toNat ∧ c.val.toNat < 0x110000 := c.valid
  simp only [String.utf8EncodeChar]
  generalize c.val.toNat = v at back valid
  subst back
  split
  · rename_i one
    have ascii : feed .between v = ([some (Char.ofNat v)], .between) := feed_ascii (by omega)
    rw [List.singleton_append, unitsFrom_of_feed_char (by omega) ascii]
  · split
    · rename_i two
      have first := opening_two (n := v / 64 % 32) (by omega) (by omega)
      have value : v / 64 % 32 * 64 + (v % 64 + 128 - 128) = v := by omega
      rw [List.cons_append, unitsFrom_of_feed_nil (by omega) (feed_opening (by omega) first),
        List.cons_append, List.nil_append,
        unitsFrom_of_feed_char (by omega) (feed_last (by omega) (by omega)), value]
    · split
      · rename_i three
        have first := opening_three (n := v / 4096 % 16) (by omega)
        have value : (v / 4096 % 16 * 64 + (v / 64 % 64 + 128 - 128)) * 64 +
            (v % 64 + 128 - 128) = v := by omega
        rw [List.cons_append, unitsFrom_of_feed_nil (by omega) (feed_opening (by omega) first),
          List.cons_append,
          unitsFrom_of_feed_nil (by omega) (feed_more (by split <;> omega) (by split <;> omega)),
          List.cons_append, List.nil_append,
          unitsFrom_of_feed_char (by omega) (feed_last (by omega) (by omega)), value]
      · rename_i four
        have first := opening_four (n := v / 262144 % 8) (by omega)
        have value : ((v / 262144 % 8 * 64 + (v / 4096 % 64 + 128 - 128)) * 64 +
            (v / 64 % 64 + 128 - 128)) * 64 + (v % 64 + 128 - 128) = v := by omega
        rw [List.cons_append, unitsFrom_of_feed_nil (by omega) (feed_opening (by omega) first),
          List.cons_append,
          unitsFrom_of_feed_nil (by omega) (feed_more (by split <;> omega) (by split <;> omega)),
          List.cons_append, unitsFrom_of_feed_nil (by omega) (feed_more (by omega) (by omega)),
          List.cons_append, List.nil_append,
          unitsFrom_of_feed_char (by omega) (feed_last (by omega) (by omega)), value]

/-! ## Texts -/

/-- The bytes of a text stand for its characters. -/
theorem units_encode (s : String) : units (encode s) = s.toList.map some := by
  rw [units, encode]
  induction s.toList with
  | nil => rfl
  | cons c rest ih => rw [List.flatMap_cons, unitsFrom_utf8EncodeChar, ih, List.map_cons]

/-- **The bytes of a text are read as the text.** -/
theorem decode?_encode (s : String) : decode? (encode s) = some s := by
  have all : (s.toList.map some).mapM id = some s.toList := by
    induction s.toList with
    | nil => rfl
    | cons c rest ih => simp [ih]
  rw [decode?, units_encode, all, Option.map_some, String.ofList_toList]

end LeasePool.Text.Utf8
