import Staging.Proofs.Calendar.Days
import Staging.Proofs.Number.ReadBack

/-!
Texts of instants.

The text of an instant is the stamp of a time of its day (`Instant.exists_clock`). Stamps of years with four digits
read back (`Instant.readStamp?_stamp`). In the stamps of all other years the year has a sign, and these denote nothing:
a time stamp has no sign, and a bare date has no time (`Instant.read?_stamp_eq_none`).

Whatever is read, or made of a number, is well formed (`Instant.WellFormed`): it is within a second, or within the
leap second at the end of a minute. So for every instant that there is, `Instant.read?_text` and
`Instant.read?_text_eq_none` say what its text denotes.
-/

namespace Staging.Number

theorem digitsValue_lt {ds : List Char} (digits : ∀ c ∈ ds, c.isDigit = true) : digitsValue ds < 10 ^ ds.length := by
  induction ds using List.reverseRecOn with
  | nil => decide
  | append_singleton ds c ih =>
    have before := ih fun x inside => digits x (List.mem_append_left _ inside)
    have last := digit_bounds (digits c (by simp))
    rw [digitsValue_snoc, List.length_append, List.length_singleton, Nat.pow_succ]
    omega

theorem not_isBlank_of_isDigit {c : Char} (digit : c.isDigit = true) : Text.isBlank c = false := by
  have bounds := digit_bounds digit
  simp [Text.isBlank]
  omega

end Staging.Number

namespace Staging.Instant

open Number

/-! ### Numbers with leading zeros -/

/-- A number below a power of ten is written with as many digits. -/
theorem length_padded {width n : Nat} (fits : n < 10 ^ width) (positive : 0 < width) :
    (padded width n).toList.length = width := by
  have short := (Nat.length_toDigits_le_iff (by decide : 1 < 10) positive).2 fits
  simp only [padded, String.toList_ofList, List.length_append, List.length_replicate]
  omega

theorem length_padded_pos (width n : Nat) : 0 < (padded width n).toList.length := by
  have digits := Nat.length_toDigits_pos (b := 10) (n := n)
  simp only [padded, String.toList_ofList, List.length_append]
  omega

theorem isDigit_padded (width n : Nat) : (padded width n).toList.all Char.isDigit = true := by
  simp only [padded, String.toList_ofList, List.all_append, Bool.and_eq_true]
  exact ⟨List.all_eq_true.2 fun c zero => by rw [List.eq_of_mem_replicate zero]; rfl, isDigit_toDigits n⟩

theorem digitsValue_padded (width n : Nat) : digitsValue (padded width n).toList = n := by
  simp only [padded, String.toList_ofList, digitsValue_eq, Nat.ofDigitChars_append, Nat.ofDigitChars_replicate_zero,
    Nat.mul_zero]
  exact Nat.ofDigitChars_ten_toDigits

theorem dropWhile_isBlank_padded (width n : Nat) (rest : List Char) :
    ((padded width n).toList ++ rest).dropWhile Text.isBlank = (padded width n).toList ++ rest := by
  have digits := isDigit_padded width n
  obtain ⟨c, ds, begins⟩ := List.exists_cons_of_length_pos (length_padded_pos width n)
  rw [begins, List.all_cons, Bool.and_eq_true] at digits
  simp [begins, not_isBlank_of_isDigit digits.1]

/-! ### Reading the parts of a stamp -/

theorem bind_of_eq {α β : Type} {x : Option α} {a : α} {f : α → Option β} {y : Option β} (known : x = some a)
    (rest : f a = y) : (x >>= f) = y := by
  rw [known]
  exact rest

theorem of_bind_eq_some {α β : Type} {x : Option α} {f : α → Option β} {b : β} (found : (x >>= f) = some b) :
    ∃ a, x = some a ∧ f a = some b :=
  Option.bind_eq_some_iff.1 found

theorem readChar?_self (c : Char) (cs : List Char) : readChar? c (c :: cs) = some cs := by
  simp [readChar?]

/-- Digits are read up to the greatest number of them, or to the first character that is none. -/
theorem readDigits?_append {least most : Nat} {ds : List Char} (digits : ds.all Char.isDigit = true)
    (bounds : least ≤ ds.length ∧ ds.length ≤ most) {rest : List Char}
    (ends : ds.length = most ∨ ∀ c, rest.head? = some c → c.isDigit = false) :
    readDigits? least most (ds ++ rest) = some (digitsValue ds, rest) := by
  have head : ∀ c, (rest.take (most - ds.length)).head? = some c → c.isDigit = false := by
    rcases ends with exact | other
    · simp [exact]
    · intro c begins
      refine other c ?_
      cases rest with
      | nil => simp at begins
      | cons d rest =>
        cases room : most - ds.length with
        | zero => simp [room] at begins
        | succ room' => simpa [room] using begins
  have taken := (takeWhile_append_of_all (rest.take (most - ds.length)) digits head).1
  have longer : ¬ ds.length < least := by omega
  unfold readDigits?
  simp only [List.take_append, List.take_of_length_le bounds.2, taken, if_neg longer, List.drop_left]

theorem readDigits?_padded {least width n : Nat} (fits : n < 10 ^ width) (within : least ≤ width)
    (positive : 0 < width) (rest : List Char) :
    readDigits? least width ((padded width n).toList ++ rest) = some (n, rest) := by
  have length := length_padded fits positive
  rw [readDigits?_append (isDigit_padded width n) ⟨by omega, le_of_eq length⟩ (.inl length), digitsValue_padded]

theorem readDigits?_sign {least most : Nat} {c : Char} (sign : c.isDigit = false) (positive : 0 < least)
    (cs : List Char) : readDigits? least most (c :: cs) = none := by
  have nothing : ((c :: cs).take most).takeWhile Char.isDigit = [] := by
    cases most <;> simp [sign]
  simp [readDigits?, nothing, positive]

theorem readFraction?_padded {n : Nat} (fits : n < 1000) :
    readFraction? ('.' :: ((padded 3 n).toList ++ ['Z'])) = some (n * 1000000, ['Z']) := by
  have length : (padded 3 n).toList.length = 3 := length_padded fits (by decide)
  have taken := takeWhile_append_of_all ['Z'] (isDigit_padded 3 n) (by rintro _ ⟨⟩; rfl)
  have short : (padded 3 n).toList.take 9 = (padded 3 n).toList := List.take_of_length_le (by omega)
  have some : (padded 3 n).toList.isEmpty = false := by
    rw [List.isEmpty_eq_false_iff, ← List.length_pos_iff]
    exact length_padded_pos 3 n
  have behind : ((padded 3 n).toList ++ ['Z']).drop 3 = ['Z'] := List.drop_left' length
  unfold readFraction?
  simp only [taken.1, some, short, length, digitsValue_padded, behind]
  rfl

/-! ### Stamps -/

/-- The text of a time of a day. -/
def stamp (d : Day) (hour minute second milli : Nat) : String :=
  yearText d.year ++ "-" ++ padded 2 d.month ++ "-" ++ padded 2 d.day ++ "T"
    ++ padded 2 hour ++ ":" ++ padded 2 minute ++ ":" ++ padded 2 second ++ "." ++ padded 3 milli ++ "Z"

theorem toList_stamp (d : Day) (hour minute second milli : Nat) : (stamp d hour minute second milli).toList =
    (yearText d.year).toList ++ '-' :: ((padded 2 d.month).toList ++ '-' :: ((padded 2 d.day).toList ++ 'T' ::
      ((padded 2 hour).toList ++ ':' :: ((padded 2 minute).toList ++ ':' :: ((padded 2 second).toList ++ '.' ::
        ((padded 3 milli).toList ++ ['Z'])))))) := by
  unfold stamp
  simp

/-- The instant at a time of a day. The leap second is held as a longer second before it. -/
def atTime (d : Day) (hour minute second milli : Nat) : Instant :=
  if second = 60 then ⟨d.toNumber * 86400 + hour * 3600 + minute * 60 + 59, (milli + 1000) * 1000000⟩
  else ⟨d.toNumber * 86400 + hour * 3600 + minute * 60 + second, milli * 1000000⟩

/-- A day has such a time. -/
structure Clock (hour minute second milli : Nat) : Prop where
  hour : hour < 24
  minute : minute < 60
  second : second ≤ 60
  milli : milli < 1000

/-- **The stamp of a year with four digits reads back.** -/
theorem readStamp?_stamp {d : Day} {hour minute second milli : Nat} (proper : d.Proper)
    (bounds : 0 ≤ d.year ∧ d.year ≤ 9999) (clock : Clock hour minute second milli) :
    readStamp? (stamp d hour minute second milli).toList = some (atTime d hour minute second milli) := by
  obtain ⟨hourLt, minuteLt, secondLe, milliLt⟩ := clock
  obtain ⟨monthLt, dayLt⟩ := proper.lt
  have year : (d.year.toNat : Int) = d.year := Int.toNat_of_nonneg bounds.1
  have text : yearText d.year = padded 4 d.year.toNat := if_pos bounds
  have years := readDigits?_padded (n := d.year.toNat) (by omega) (le_refl 4) (by decide)
  have digits {n : Nat} (fits : n < 100) := readDigits?_padded (n := n) fits (le_refl 2) (by decide)
  have zone : readOffset? ['Z'] = some (0, []) := rfl
  rw [toList_stamp, text]
  unfold readStamp?
  apply bind_of_eq (years _)
  apply bind_of_eq (readChar?_self _ _)
  apply bind_of_eq (digits monthLt _)
  apply bind_of_eq (readChar?_self _ _)
  apply bind_of_eq (digits dayLt _)
  apply bind_of_eq (show readSeparator? ('T' :: _) = some _ from rfl)
  apply bind_of_eq (digits (by omega) _)
  apply bind_of_eq (readChar?_self _ _)
  apply bind_of_eq (digits (by omega) _)
  apply bind_of_eq (readChar?_self _ _)
  apply bind_of_eq (digits (by omega) _)
  apply bind_of_eq (readFraction?_padded milliLt)
  apply bind_of_eq zone
  have accepted : (!([] : List Char).isEmpty || !d.isValid || hour > 23 || minute > 59 || second > 60) = false := by
    simp [proper.isValid bounds]
    omega
  have same : Day.mk (d.year.toNat : Int) d.month d.day = d := by rw [year]
  simp only [same, accepted, Bool.false_eq_true, if_false, Int.sub_zero]
  by_cases leap : second = 60
  · simp [atTime, leap]
    omega
  · simp [atTime, leap]

/-- A year without four digits is written with a sign. -/
theorem yearText_signed {year : Int} (outside : ¬ (0 ≤ year ∧ year ≤ 9999)) :
    ∃ sign, (sign = '-' ∨ sign = '+') ∧ (yearText year).toList = sign :: (padded 4 year.natAbs).toList := by
  unfold yearText
  rw [if_neg outside]
  by_cases negative : year < 0
  · exact ⟨'-', .inl rfl, by simp [negative]⟩
  · exact ⟨'+', .inr rfl, by simp [negative]⟩

/-- A signed year is read up to the first character that is no digit. -/
theorem readYear?_signed {sign : Char} (either : sign = '-' ∨ sign = '+') (n : Nat) {rest : List Char}
    (ends : ∀ c, rest.head? = some c → c.isDigit = false) :
    ∃ year, readYear? (sign :: ((padded 4 n).toList ++ rest)) = some (year, rest) := by
  have within : (padded 4 n).toList.length ≤ ((padded 4 n).toList ++ rest).length := by simp
  have read := readDigits?_append (isDigit_padded 4 n) ⟨length_padded_pos 4 n, within⟩ (.inr ends)
  have unblank : Text.isBlank sign = false := by
    rcases either with rfl | rfl <;> decide
  have begins := List.dropWhile_cons_of_neg (l := (padded 4 n).toList ++ rest) (by simpa using unblank)
  rcases either with rfl | rfl
  · exact ⟨-(digitsValue (padded 4 n).toList : Int), by simp only [readYear?, begins, read, Option.map_some]⟩
  · exact ⟨digitsValue (padded 4 n).toList, by simp only [readYear?, begins, read, Option.map_some]⟩

/-- **The stamp of any other year is read as nothing.** -/
theorem read?_stamp_eq_none {d : Day} (outside : ¬ (0 ≤ d.year ∧ d.year ≤ 9999)) (proper : d.Proper)
    (hour minute second milli : Nat) : read? (stamp d hour minute second milli) = none := by
  obtain ⟨sign, either, text⟩ := yearText_signed outside
  obtain ⟨monthLt, dayLt⟩ := proper.lt
  have noStamp : readStamp? (stamp d hour minute second milli).toList = none := by
    have other : sign.isDigit = false := by
      rcases either with rfl | rfl <;> rfl
    have unread (cs : List Char) : readDigits? 4 4 (sign :: cs) = none := readDigits?_sign other (by decide) cs
    rw [toList_stamp, text]
    simp only [readStamp?, List.cons_append, unread]
    rfl
  -- The year, the month and the day are read, and the time of the day is left.
  have noDate : readDate? (stamp d hour minute second milli).toList = none := by
    have digits {n : Nat} (fits : n < 100) := readDigits?_padded (n := n) fits (show 1 ≤ 2 by decide) (by decide)
    rw [toList_stamp, text]
    have ends {cs : List Char} : ∀ c, ('-' :: cs).head? = some c → c.isDigit = false := by
      rintro _ ⟨⟩
      rfl
    obtain ⟨year, read⟩ := readYear?_signed either d.year.natAbs ends
    unfold readDate?
    apply bind_of_eq read
    apply bind_of_eq (readChar?_self _ _)
    rw [dropWhile_isBlank_padded]
    apply bind_of_eq (digits monthLt _)
    apply bind_of_eq (readChar?_self _ _)
    rw [dropWhile_isBlank_padded]
    apply bind_of_eq (digits dayLt _)
    rfl
  simp only [read?, noStamp, noDate]

/-! ### Instants -/

/-- The nanoseconds are those of a second, or of the leap second at the end of a minute. -/
structure WellFormed (t : Instant) : Prop where
  nanos : t.nanos < 2000000000
  leap : 1000000000 ≤ t.nanos → t.seconds % 60 = 59

/-- The day an instant is on. -/
def day (t : Instant) : Day := Day.ofNumber (t.seconds.fdiv 86400)

/-- The instant is in a year that is written with four digits. -/
def FourDigits (t : Instant) : Prop := 0 ≤ t.day.year ∧ t.day.year ≤ 9999

instance (t : Instant) : Decidable t.FourDigits := inferInstanceAs (Decidable (_ ∧ _))

/-- An instant cut to milliseconds. -/
def cut (t : Instant) : Instant := ⟨t.seconds, t.nanos / 1000000 * 1000000⟩

theorem millis_cut (t : Instant) : t.cut.millis = t.millis := by
  simp [cut, millis]

/-- An instant, cut to milliseconds, is a time of its day, and its text is the stamp of this time. -/
theorem exists_clock {t : Instant} (wellFormed : t.WellFormed) : ∃ hour minute second milli : Nat,
    Clock hour minute second milli ∧ t.text = stamp t.day hour minute second milli
      ∧ atTime t.day hour minute second milli = t.cut := by
  obtain ⟨short, leap⟩ := wellFormed
  have number : t.day.toNumber = t.seconds.fdiv 86400 := Day.toNumber_ofNumber _
  have days : t.seconds.fdiv 86400 = t.seconds / 86400 := Int.fdiv_eq_ediv_of_nonneg _ (by decide)
  have within : ((t.seconds - t.seconds.fdiv 86400 * 86400).toNat : Int) = t.seconds % 86400 := by omega
  set ofDay := (t.seconds - t.seconds.fdiv 86400 * 86400).toNat with is
  by_cases long : 1000000000 ≤ t.nanos
  · have last : ofDay % 60 = 59 := by
      have := leap long
      omega
    refine ⟨ofDay / 3600, ofDay / 60 % 60, ofDay % 60 + 1, (t.nanos - 1000000000) / 1000000,
      ⟨by omega, by omega, by omega, by omega⟩, ?_, ?_⟩
    · unfold text stamp
      simp only [day, ← is, if_pos long]
    · simp only [atTime, cut, last, if_true, number, Instant.mk.injEq]
      omega
  · refine ⟨ofDay / 3600, ofDay / 60 % 60, ofDay % 60, t.nanos / 1000000,
      ⟨by omega, by omega, by omega, by omega⟩, ?_, ?_⟩
    · unfold text stamp
      simp only [day, ← is, if_neg long]
    · have before : ofDay % 60 ≠ 60 := by omega
      simp only [atTime, cut, if_neg before, number, Instant.mk.injEq, and_true]
      omega

/-- **The text of an instant in a year with four digits denotes the instant**, cut to milliseconds. -/
theorem read?_text {t : Instant} (wellFormed : t.WellFormed) (year : t.FourDigits) : read? t.text = some t.cut := by
  obtain ⟨hour, minute, second, milli, clock, text, time⟩ := exists_clock wellFormed
  have stamped : readStamp? (stamp t.day hour minute second milli).toList = _ :=
    readStamp?_stamp (Day.proper_ofNumber _) year clock
  rw [text, ← time]
  simp only [read?, stamped]

/-- **The text of an instant in any other year denotes nothing.** -/
theorem read?_text_eq_none {t : Instant} (wellFormed : t.WellFormed) (year : ¬ t.FourDigits) :
    read? t.text = none := by
  obtain ⟨hour, minute, second, milli, clock, text, time⟩ := exists_clock wellFormed
  rw [text]
  exact read?_stamp_eq_none year (Day.proper_ofNumber _) hour minute second milli

/-! ### Instants that are made -/

theorem wellFormed_of_ofMillis? {ms : Int} {t : Instant} (made : ofMillis? ms = some t) : t.WellFormed := by
  have seconds : ms.fdiv 1000 = ms / 1000 := Int.fdiv_eq_ediv_of_nonneg _ (by decide)
  unfold ofMillis? at made
  simp only [seconds] at made
  split at made
  · obtain rfl := Option.some.inj made
    have small : ((ms - ms / 1000 * 1000) * 1000000).toNat < 1000000000 := by omega
    exact ⟨by simpa using by omega, fun long => absurd long (by simpa using small)⟩
  · exact nomatch made

theorem wellFormed_of_ofNumber? {x : Float} {t : Instant} (made : ofNumber? x = some t) : t.WellFormed := by
  unfold ofNumber? at made
  split at made
  · exact wellFormed_of_ofMillis? made
  · exact nomatch made

theorem wellFormed_startOf (d : Day) : (startOf d).WellFormed :=
  ⟨show 0 < 2000000000 by decide, fun long => absurd (show 1000000000 ≤ 0 from long) (by decide)⟩

theorem wellFormed_of_readDate? {cs : List Char} {t : Instant} (made : readDate? cs = some t) : t.WellFormed := by
  unfold readDate? at made
  obtain ⟨_, -, made⟩ := of_bind_eq_some made
  obtain ⟨_, -, made⟩ := of_bind_eq_some made
  obtain ⟨_, -, made⟩ := of_bind_eq_some made
  obtain ⟨_, -, made⟩ := of_bind_eq_some made
  obtain ⟨_, -, made⟩ := of_bind_eq_some made
  dsimp only at made
  split at made
  · exact nomatch made
  · obtain rfl := Option.some.inj made
    exact wellFormed_startOf _

/-- A fraction is less than a second. -/
theorem readFraction?_lt {cs rest : List Char} {nanos : Nat} (read : readFraction? cs = some (nanos, rest)) :
    nanos < 1000000000 := by
  unfold readFraction? at read
  split at read
  · rename_i fraction
    dsimp only at read
    split at read
    · exact nomatch read
    · obtain ⟨rfl, -⟩ := Prod.mk.inj (Option.some.inj read)
      set kept := (fraction.takeWhile Char.isDigit).take 9 with is
      have digits : ∀ c ∈ kept, c.isDigit = true := fun c inside =>
        List.all_eq_true.1 List.all_takeWhile c (List.mem_of_mem_take inside)
      have short : kept.length ≤ 9 := List.length_take_le _ _
      calc digitsValue kept * Nat.pow 10 (9 - kept.length)
          < 10 ^ kept.length * Nat.pow 10 (9 - kept.length) :=
            Nat.mul_lt_mul_of_pos_right (digitsValue_lt digits) (Nat.pow_pos (by decide))
        _ = 10 ^ (kept.length + (9 - kept.length)) := (Nat.pow_add ..).symm
        _ = 1000000000 := by
            rw [Nat.add_sub_cancel' short]
            rfl
  · obtain ⟨rfl, -⟩ := Prod.mk.inj (Option.some.inj read)
    decide

/-- An offset is of whole minutes. -/
theorem readOffset?_minutes {cs rest : List Char} {offset : Int} (read : readOffset? cs = some (offset, rest)) :
    offset % 60 = 0 := by
  cases cs with
  | nil => exact nomatch read
  | cons c cs =>
    simp only [readOffset?, Option.bind_eq_bind] at read
    split at read
    · obtain ⟨rfl, -⟩ := Prod.mk.inj (Option.some.inj read)
      rfl
    · split at read
      · simp only [Option.bind_eq_some_iff] at read
        obtain ⟨⟨hours, _⟩, -, _, -, ⟨minutes, _⟩, -, read⟩ := read
        split at read
        · exact nomatch read
        · obtain ⟨rfl, -⟩ := Prod.mk.inj (Option.some.inj read)
          split <;> omega
      · exact nomatch read

/-- Only the sixtieth second of a minute is read as a leap second. -/
theorem wellFormed_of_readStamp? {cs : List Char} {t : Instant} (made : readStamp? cs = some t) : t.WellFormed := by
  unfold readStamp? at made
  obtain ⟨_, -, made⟩ := of_bind_eq_some made
  obtain ⟨_, -, made⟩ := of_bind_eq_some made
  obtain ⟨_, -, made⟩ := of_bind_eq_some made
  obtain ⟨_, -, made⟩ := of_bind_eq_some made
  obtain ⟨_, -, made⟩ := of_bind_eq_some made
  obtain ⟨_, -, made⟩ := of_bind_eq_some made
  obtain ⟨⟨hour, _⟩, -, made⟩ := of_bind_eq_some made
  obtain ⟨_, -, made⟩ := of_bind_eq_some made
  obtain ⟨⟨minute, _⟩, -, made⟩ := of_bind_eq_some made
  obtain ⟨_, -, made⟩ := of_bind_eq_some made
  obtain ⟨⟨second, _⟩, -, made⟩ := of_bind_eq_some made
  obtain ⟨⟨nanos, _⟩, fraction, made⟩ := of_bind_eq_some made
  obtain ⟨⟨offset, _⟩, zone, made⟩ := of_bind_eq_some made
  have small := readFraction?_lt fraction
  have minutes := readOffset?_minutes zone
  dsimp only at made
  split at made
  · exact nomatch made
  · by_cases leap : second = 60
    · simp only [leap, if_true] at made
      obtain rfl := Option.some.inj made
      exact ⟨by simp only; omega, fun _ => by simp only; omega⟩
    · simp only [if_neg leap] at made
      obtain rfl := Option.some.inj made
      exact ⟨by simp only; omega, fun long => by simp only at long; omega⟩

theorem wellFormed_of_read? {text : String} {t : Instant} (made : read? text = some t) : t.WellFormed := by
  unfold read? at made
  split at made
  · rename_i stamp
    obtain rfl := Option.some.inj made
    exact wellFormed_of_readStamp? stamp
  · exact wellFormed_of_readDate? made

end Staging.Instant
