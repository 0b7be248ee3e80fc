import FilterQuery.Calendar.Timestamp
import FilterQuery.Proofs.DecimalDigits

namespace FilterQuery

theorem daysInMonth_le (year : Int) (month : Nat) : daysInMonth year month ≤ 31 := by
  unfold daysInMonth
  split
  · split <;> decide
  · split <;> decide

theorem expectChar?_here (c : Char) (rest : List Char) : expectChar? c (c :: rest) = some rest := if_pos rfl

namespace Date

theorem ofParts?_self (d : Date) : ofParts? d.year d.month d.day = some d := dif_pos d.valid

theorem readSigned_padLeft (n : Nat) {rest : List Char} (ends : DigitsEnd rest) :
    readYear?.readSigned (padLeft 4 n ++ rest) = some (n, rest) := by
  rw [readYear?.readSigned, (padLeft_digits 4 n).takeWhile ends, (padLeft_digits 4 n).dropWhile ends, padLeft_value]
  simp [padLeft_ne_nil]

theorem readYear?_yearText (year : Int) {rest : List Char} (ends : DigitsEnd rest) :
    readYear? (yearText year ++ rest) = some (year, rest) := by
  unfold yearText
  split
  case isTrue plain =>
    have fits : year.toNat < 10 ^ 4 := by omega
    have field := readField?_padLeft fits (by decide) rest
    have trimmed := trimStart_digits (padLeft_digits 4 year.toNat) (padLeft_ne_nil 4 year.toNat) rest
    have digit := (padLeft_digits 4 year.toNat).head (padLeft_ne_nil 4 year.toNat) rest
    unfold readYear?
    rw [trimmed]
    split
    next tail same => cases digit _ _ same
    next tail same => cases digit _ _ same
    next =>
      rw [field]
      exact congrArg (fun y : Int => some (y, rest)) (Int.toNat_of_nonneg plain.1)
  case isFalse far =>
    have signed := readSigned_padLeft year.natAbs ends
    by_cases negative : year < 0
    · rw [if_pos negative]
      show (readYear?.readSigned (padLeft 4 year.natAbs ++ rest)).map _ = _
      rw [signed]
      exact congrArg (fun y : Int => some (y, rest)) (by omega)
    · rw [if_neg negative]
      show (readYear?.readSigned (padLeft 4 year.natAbs ++ rest)).map _ = _
      rw [signed]
      exact congrArg (fun y : Int => some (y, rest)) (by omega)

theorem read?_chars (d : Date) (rest : List Char) : read? (d.chars ++ rest) = some (d, rest) := by
  obtain ⟨-, -, -, month, -, day⟩ := d.valid
  have monthFits : d.month < 10 ^ 2 := Nat.lt_of_le_of_lt month (by decide)
  have dayFits : d.day < 10 ^ 2 := Nat.lt_of_le_of_lt (Nat.le_trans day (daysInMonth_le ..)) (by decide)
  have hyphen : ∀ tail, DigitsEnd ('-' :: tail) := fun tail => .cons (by decide) tail
  simp only [read?, chars, List.append_assoc, List.cons_append, readYear?_yearText _ (hyphen _), expectChar?_here,
    readField?_padLeft monthFits (by decide), readField?_padLeft dayFits (by decide), Option.bind_eq_bind,
    Option.bind_some, ofParts?_self]

end Date

namespace Time

-- What a reading gives: only the last second of a minute may be a leap second.
def Told (t : Time) : Prop := nanosPerSecond ≤ t.nanos → t.seconds % 60 = 59

theorem readFraction?_fractionText {nanos : Nat} (within : nanos < nanosPerSecond) {rest : List Char} (ends : DigitsEnd rest)
    (noPoint : ∀ tail, rest ≠ '.' :: tail) : readFraction? (fractionText nanos ++ rest) = some (nanos, rest) := by
  have places : ∀ width n, 0 < width → width ≤ 9 → n < 10 ^ width → n * Nat.pow 10 (9 - width) = nanos →
      readFraction? ('.' :: padLeft width n ++ rest) = some (nanos, rest) := by
    intro width n wide most fits scaled
    have length := padLeft_length fits wide
    have kept : (padLeft width n).take 9 = padLeft width n := List.take_of_length_le (by omega)
    rw [List.cons_append, readFraction?, (padLeft_digits width n).takeWhile ends,
      (padLeft_digits width n).dropWhile ends, kept, padLeft_value, length, scaled]
    simp [padLeft_ne_nil]
  unfold nanosPerSecond at within
  unfold fractionText
  split
  case isTrue none =>
    subst none
    unfold readFraction?
    split
    next tail same => exact absurd same (noPoint tail)
    next => rfl
  case isFalse =>
    split
    case isTrue millis =>
      exact places 3 _ (by decide) (by decide) (by omega) (Nat.div_mul_cancel (Nat.dvd_of_mod_eq_zero millis))
    case isFalse =>
      split
      case isTrue micros =>
        exact places 6 _ (by decide) (by decide) (by omega) (Nat.div_mul_cancel (Nat.dvd_of_mod_eq_zero micros))
      case isFalse => exact places 9 _ (by decide) (by decide) within (Nat.mul_one nanos)

theorem ofSeconds?_self (t : Time) : ofSeconds? t.seconds t.nanos = some t := dif_pos ⟨t.inDay, t.bounded⟩

theorem ofParts?_self {t : Time} (told : t.Told) :
    ofParts? (t.seconds / 3600) (t.seconds / 60 % 60) (t.seconds % 60 + t.nanos / nanosPerSecond)
      (t.nanos % nanosPerSecond) = some t := by
  have inDay := t.inDay
  have bounded := t.bounded
  unfold secondsPerDay at inDay
  have whole := ofSeconds?_self t
  unfold Told at told
  unfold ofParts?
  unfold nanosPerSecond at *
  rw [if_pos (by omega)]
  by_cases leap : 1000000000 ≤ t.nanos
  · have last := told leap
    rw [if_pos (by omega)]
    have seconds : t.seconds / 3600 * 3600 + t.seconds / 60 % 60 * 60 + 59 = t.seconds := by omega
    have nanos : 1000000000 + t.nanos % 1000000000 = t.nanos := by omega
    rw [seconds, nanos, whole]
  · rw [if_neg (by omega)]
    have seconds : t.seconds / 3600 * 3600 + t.seconds / 60 % 60 * 60 + (t.seconds % 60 + t.nanos / 1000000000) =
        t.seconds := by omega
    have nanos : t.nanos % 1000000000 = t.nanos := by omega
    rw [seconds, nanos, whole]

theorem read?_chars {t : Time} (told : t.Told) {rest : List Char} (ends : DigitsEnd rest)
    (noPoint : ∀ tail, rest ≠ '.' :: tail) : read? (t.chars ++ rest) = some (t, rest) := by
  have inDay := t.inDay
  have bounded := t.bounded
  unfold secondsPerDay at inDay
  unfold nanosPerSecond at bounded
  have hourFits : t.seconds / 3600 < 10 ^ 2 := by omega
  have minuteFits : t.seconds / 60 % 60 < 10 ^ 2 := by omega
  have secondFits : t.seconds % 60 + t.nanos / nanosPerSecond < 10 ^ 2 := by unfold nanosPerSecond; omega
  have within : t.nanos % nanosPerSecond < nanosPerSecond := Nat.mod_lt _ (by decide)
  simp only [read?, readMinutes?, chars, List.append_assoc, List.cons_append, readField?_padLeft hourFits (by decide),
    readField?_padLeft minuteFits (by decide), readField?_padLeft secondFits (by decide), expectChar?_here,
    readFraction?_fractionText within ends noPoint, Option.bind_eq_bind, Option.bind_some, ofParts?_self told]

theorem ofSeconds?_parts {seconds nanos : Nat} {t : Time} (made : ofSeconds? seconds nanos = some t) :
    t.seconds = seconds ∧ t.nanos = nanos := by
  unfold ofSeconds? at made
  split at made
  · cases made
    exact ⟨rfl, rfl⟩
  · cases made

theorem ofParts?_told {hour minute second nanos : Nat} {t : Time}
    (made : ofParts? hour minute second nanos = some t) : t.Told := by
  unfold ofParts? at made
  split at made
  case isFalse => cases made
  case isTrue fits =>
    intro leap
    split at made
    · obtain ⟨seconds, -⟩ := ofSeconds?_parts made
      omega
    · obtain ⟨-, nanos⟩ := ofSeconds?_parts made
      omega

theorem read?_told {cs rest : List Char} {t : Time} (read : read? cs = some (t, rest)) : t.Told := by
  simp only [read?, Option.bind_eq_bind, Option.bind_eq_some_iff, Option.some.injEq, Prod.mk.injEq] at read
  obtain ⟨_, -, _, -, _, -, _, -, _, made, rfl, -⟩ := read
  exact ofParts?_told made

theorem ofText?_told {s : String} {t : Time} (read : ofText? s = some t) : t.Told := by
  unfold ofText? at read
  split at read
  next time first =>
    cases read
    exact read?_told first
  next =>
    split at read
    · exact ofParts?_told read
    · cases read

theorem text_inj {t u : Time} (told : t.Told) (told' : u.Told) (same : t.text = u.text) : t = u := by
  have chars : t.chars = u.chars := String.ofList_inj.mp same
  have left : read? (t.chars ++ []) = some (t, []) := read?_chars told .nil nofun
  rw [chars, read?_chars told' .nil nofun] at left
  cases left
  rfl

end Time

theorem Date.text_inj {d e : Date} (same : d.text = e.text) : d = e := by
  have chars : d.chars = e.chars := String.ofList_inj.mp same
  have left := d.read?_chars []
  rw [chars, e.read?_chars] at left
  cases left
  rfl

namespace Timestamp

theorem serialText_inj {t u : Timestamp} (told : t.time.Told) (told' : u.time.Told)
    (same : t.serialText = u.serialText) : t = u := by
  obtain ⟨date, time⟩ := t
  obtain ⟨date', time'⟩ := u
  have written : date.chars ++ 'T' :: (time.chars ++ ['Z']) = date'.chars ++ 'T' :: (time'.chars ++ ['Z']) := by
    simpa only [chars, List.append_assoc, List.cons_append] using String.ofList_inj.mp same
  have dates := date.read?_chars ('T' :: (time.chars ++ ['Z']))
  rw [written, date'.read?_chars] at dates
  obtain ⟨rfl, -⟩ := Prod.mk.inj (Option.some.inj dates)
  have ends : DigitsEnd ['Z'] := .cons (by decide) []
  have times : time.chars ++ ['Z'] = time'.chars ++ ['Z'] := by simpa using written
  have read := Time.read?_chars told ends (by simp)
  rw [times, Time.read?_chars told' ends (by simp)] at read
  cases read
  rfl

theorem ofLocal?_clock {date : Date} {time : Time} {offset : Int} {t : Timestamp}
    (made : ofLocal? date time offset = some t) :
    Time.ofSeconds? ((time.seconds - offset * 60) % secondsPerDay).toNat time.nanos = some t.time := by
  have clocked : ∀ day : Option Date,
      (day.bind fun d => (Time.ofSeconds? ((time.seconds - offset * 60) % secondsPerDay).toNat time.nanos).bind
        fun clock => some (⟨d, clock⟩ : Timestamp)) = some t →
      Time.ofSeconds? ((time.seconds - offset * 60) % secondsPerDay).toNat time.nanos = some t.time := by
    intro day made
    obtain ⟨d, -, made⟩ := Option.bind_eq_some_iff.mp made
    obtain ⟨clock, ticks, made⟩ := Option.bind_eq_some_iff.mp made
    cases made
    exact ticks
  unfold ofLocal? at made
  dsimp only [Option.bind_eq_bind] at made
  split at made
  · exact clocked _ made
  · split at made
    · exact clocked _ made
    · exact clocked (some date) made

-- Minutes do not move the seconds.
theorem ofLocal?_told {date : Date} {time : Time} {offset : Int} {t : Timestamp} (told : time.Told)
    (made : ofLocal? date time offset = some t) : t.time.Told := by
  obtain ⟨seconds, nanos⟩ := Time.ofSeconds?_parts (ofLocal?_clock made)
  intro leap
  have last := told (nanos ▸ leap)
  unfold secondsPerDay at seconds
  omega

theorem readStrict?_told {cs : List Char} {t : Timestamp} (read : readStrict? cs = some t) : t.time.Told := by
  have last : ∀ {α β : Type} {first : Option α} {next : α → Option β} {b : β}, (first >>= next) = some b →
      ∃ a, next a = some b := fun read => (Option.bind_eq_some_iff.mp read).imp fun _ given => given.2
  unfold readStrict? at read
  obtain ⟨⟨year, rest⟩, read⟩ := last read
  obtain ⟨rest, read⟩ := last read
  obtain ⟨⟨month, rest⟩, read⟩ := last read
  obtain ⟨rest, read⟩ := last read
  obtain ⟨⟨day, rest⟩, read⟩ := last read
  dsimp only at read
  split at read
  · cases read
  · split at read
    · obtain ⟨⟨hour, rest⟩, read⟩ := last read
      obtain ⟨rest, read⟩ := last read
      obtain ⟨⟨minute, rest⟩, read⟩ := last read
      obtain ⟨rest, read⟩ := last read
      obtain ⟨⟨second, rest⟩, read⟩ := last read
      obtain ⟨⟨nanos, rest⟩, read⟩ := last read
      obtain ⟨⟨offset, rest⟩, read⟩ := last read
      obtain ⟨date, read⟩ := last read
      obtain ⟨time, made, read⟩ := Option.bind_eq_some_iff.mp read
      split at read
      · exact ofLocal?_told (Time.ofParts?_told made) read
      · cases read
    · cases read

theorem readNaive?_told {separator : List Char → Option (List Char)} {cs : List Char} {t : Timestamp}
    (read : readNaive? separator cs = some t) : t.time.Told := by
  simp only [readNaive?, Option.bind_eq_bind, Option.bind_eq_some_iff] at read
  obtain ⟨_, -, _, -, ⟨time, rest⟩, timed, read⟩ := read
  split at read
  · cases read
    exact Time.read?_told timed
  · cases read

theorem ofText?_told {s : String} {t : Timestamp} (read : ofText? s = some t) : t.time.Told := by
  simp only [ofText?, Option.orElse_eq_orElse, Option.orElse_eq_or, Option.or_eq_some_iff] at read
  rcases read with strict | ⟨-, lettered | ⟨-, blank⟩⟩
  · exact readStrict?_told strict
  · exact readNaive?_told lettered
  · exact readNaive?_told blank

end Timestamp
end FilterQuery
