import FilterQuery.Proofs.ValueText

namespace FilterQuery

theorem digitsValue_cons (c : Char) (cs : List Char) :
    digitsValue (c :: cs) = 10 ^ cs.length * digitValue c + digitsValue cs := by
  have split := digitsValue_append [c] cs
  have one : digitsValue [c] = digitValue c := by simp [digitsValue]
  rwa [one] at split

namespace FixedPoint

-- The sign of a zero is written, but not read.
def signless (d : FixedPoint) : FixedPoint := { d with negative := d.negative && d.magnitude != 0 }

theorem signless_value (d : FixedPoint) : d.signless.sameValue d = true := by
  have mantissas : d.signless.mantissa = d.mantissa := by
    unfold mantissa signless
    by_cases zero : d.magnitude = 0
    · simp [zero]
    · simp [zero]
  rw [sameValue, mantissas]
  exact beq_self_eq_true _

namespace Reading

variable {ds : List Char} {r : Reading}

theorem digit_point (r : Reading) (m : Nat) : (r.digit m).point = r.point := rfl

theorem digit_scale (r : Reading) (m : Nat) : (r.digit m).scale = if r.point then r.scale + 1 else r.scale := rfl

theorem digit_started (r : Reading) (m : Nat) : (r.digit m).started = true := rfl

theorem isFull_of_room (room : r.point = true → r.scale < greatestScale) : r.isFull = false := by
  unfold isFull
  cases point : r.point with
  | false => rfl
  | true => exact decide_eq_false (Nat.not_le.mpr (room point))

-- One more digit where there is room for it.
theorem run_digit {c : Char} (digit : FilterQuery.isDigit c = true) (room : r.point = true → r.scale < greatestScale)
    (fits : 10 * r.magnitude + digitValue c ≤ greatestMagnitude) (rest : List Char) :
    run (c :: rest) r = run rest (r.digit (10 * r.magnitude + digitValue c)) := by
  simp only [run, isFull_of_room room, digit, fits, if_true, Bool.false_and, Bool.false_eq_true, if_false]

theorem run_point (room : r.point = false) (rest : List Char) :
    run ('.' :: rest) r = run rest { r with point := true } := by
  have empty : r.isFull = false := isFull_of_room fun point => absurd point (by simp [room])
  have other : FilterQuery.isDigit '.' = false := by decide
  simp [run, empty, other, room]

-- What is known after a run of digits.
structure Took (r : Reading) (ds : List Char) (r' : Reading) : Prop where
  magnitude : r'.magnitude = 10 ^ ds.length * r.magnitude + digitsValue ds
  scale : r'.scale = if r.point then r.scale + ds.length else r.scale
  point : r'.point = r.point
  started : r'.started = (r.started || !ds.isEmpty)

theorem run_digits (digits : Digits ds) (fits : 10 ^ ds.length * r.magnitude + digitsValue ds ≤ greatestMagnitude)
    (room : r.point = true → r.scale + ds.length ≤ greatestScale) (rest : List Char) :
    ∃ r', run (ds ++ rest) r = run rest r' ∧ Took r ds r' := by
  induction ds generalizing r with
  | nil => exact ⟨r, rfl, by simp [digitsValue], by simp, rfl, by simp⟩
  | cons c cs ih =>
    obtain ⟨digit, more⟩ := List.forall_mem_cons.mp digits
    have grown : 10 ^ (c :: cs).length * r.magnitude + digitsValue (c :: cs) =
        10 ^ cs.length * (10 * r.magnitude + digitValue c) + digitsValue cs := by
      rw [digitsValue_cons, List.length_cons, Nat.pow_succ]
      ring
    rw [grown] at fits
    have positive : 0 < 10 ^ cs.length := Nat.pow_pos (by decide)
    have scaled := Nat.le_mul_of_pos_left (10 * r.magnitude + digitValue c) positive
    have here : r.point = true → r.scale < greatestScale := by
      intro point
      have left := room point
      rw [List.length_cons] at left
      omega
    have later : (r.digit (10 * r.magnitude + digitValue c)).point = true →
        (r.digit (10 * r.magnitude + digitValue c)).scale + cs.length ≤ greatestScale := by
      intro point
      have left := room point
      rw [List.length_cons] at left
      rw [digit_scale, if_pos (digit_point r _ ▸ point)]
      omega
    obtain ⟨r', ran, took⟩ := ih more fits later
    refine ⟨r', (run_digit digit here (by omega) _).trans ran, took.magnitude.trans grown.symm, ?_, took.point, ?_⟩
    · rw [took.scale, digit_point, digit_scale, List.length_cons]
      split
      · omega
      · rfl
    · rw [took.started, digit_started]
      simp

theorem run_end (started : r.started = true) : run [] r = some (r.magnitude, r.scale) := if_pos started

theorem run_whole {whole : List Char} (digits : Digits whole) (filled : whole ≠ [])
    (fits : digitsValue whole ≤ greatestMagnitude) : run whole .start = some (digitsValue whole, 0) := by
  obtain ⟨r, ran, took⟩ := run_digits (r := .start) digits (by simpa [start] using fits) nofun []
  rw [List.append_nil] at ran
  rw [ran, run_end (by simp [took.started, filled]), took.magnitude, took.scale]
  simp [start]

theorem run_fraction {whole fraction : List Char} (digits : Digits whole) (digits' : Digits fraction)
    (filled : whole ≠ []) (fits : digitsValue (whole ++ fraction) ≤ greatestMagnitude)
    (places : fraction.length ≤ greatestScale) :
    run (whole ++ '.' :: fraction) .start = some (digitsValue (whole ++ fraction), fraction.length) := by
  rw [digitsValue_append] at fits ⊢
  have shorter := Nat.le_mul_of_pos_left (digitsValue whole) (Nat.pow_pos (n := fraction.length) (a := 10) (by decide))
  obtain ⟨r, ran, took⟩ := run_digits (r := .start) digits (by simp [start]; omega) nofun ('.' :: fraction)
  have magnitude : r.magnitude = digitsValue whole := by simp [took.magnitude, start]
  have scale : r.scale = 0 := by simp [took.scale, start]
  obtain ⟨r', ran', took'⟩ := run_digits (r := { r with point := true }) digits' (by rw [magnitude]; exact fits)
    (fun _ => by simpa [scale] using places) []
  rw [List.append_nil] at ran'
  rw [ran, run_point took.point, ran', run_end (by simp [took'.started, took.started, filled]), took'.magnitude,
    took'.scale, magnitude, scale]
  simp

end Reading

theorem run_unsigned (d : FixedPoint) : Reading.run d.unsigned .start = some (d.magnitude, d.scale) := by
  obtain ⟨whole, fraction, digits, digits', filled, value, places, written⟩ := d.unsigned_parts
  rw [written]
  split
  case isTrue none =>
    rw [none, List.length_eq_zero_iff] at places
    rw [places, List.append_nil] at value
    rw [Reading.run_whole digits filled (value ▸ d.fits), value, none]
  case isFalse =>
    rw [Reading.run_fraction digits digits' filled (value ▸ d.fits) (places ▸ d.places), value, places]

theorem splitSign_unsigned (d : FixedPoint) : splitSign d.unsigned = (false, d.unsigned) := by
  have numeral := d.unsigned_numeral
  unfold splitSign
  split
  next same => cases same ▸ numeral
  next same => cases same ▸ numeral
  next => rfl

theorem splitSign_chars (d : FixedPoint) : splitSign d.chars = (d.negative, d.unsigned) := by
  rw [chars_eq]
  cases negative : d.negative with
  | true => rfl
  | false => exact d.splitSign_unsigned

theorem ofText?_text (d : FixedPoint) : ofText? d.text = some d.signless := by
  have plain : readPlain? d.chars = some d.signless := by
    unfold readPlain?
    rw [splitSign_chars]
    dsimp only
    rw [run_unsigned]
    exact dif_pos ⟨d.fits, d.places⟩
  rw [ofText?, text, String.toList_ofList, plain]
  rfl

end FixedPoint

namespace Uuid

-- How long the text of that many digits is: a hyphen stands in front of the ninth, and then of every fourth digit up
-- to the twenty-first.
def place (i : Nat) : Nat := i + min 4 ((i - 5) / 4)

theorem hyphenate_cons (i : Nat) (c : Char) (rest : List Char) : hyphenate i (c :: rest) =
    (if i = 8 ∨ i = 12 ∨ i = 16 ∨ i = 20 then ['-', c] else [c]) ++ hyphenate (i + 1) rest := rfl

-- Hyphens stand in their places and nowhere else.
theorem hyphenate_places (i : Nat) {cs : List Char} (plain : ∀ c ∈ cs, c ≠ '-') :
    ((hyphenate i cs).zipIdx (place i)).all (fun (c, i) => (c == '-') == isHyphenPlace i) = true := by
  induction cs generalizing i with
  | nil => rfl
  | cons c rest ih =>
    obtain ⟨other, others⟩ := List.forall_mem_cons.mp plain
    have later := ih (i + 1) others
    have digit : (c == '-') = false := beq_eq_false_iff_ne.mpr other
    rw [hyphenate_cons]
    split
    case isTrue hyphen =>
      have next : place i + 1 + 1 = place (i + 1) := by unfold place; omega
      have here : isHyphenPlace (place i) = true ∧ isHyphenPlace (place i + 1) = false := by
        rcases hyphen with rfl | rfl | rfl | rfl <;> decide
      simp only [List.cons_append, List.nil_append, List.zipIdx_cons, List.all_cons, next, later, digit, here]
      rfl
    case isFalse plain =>
      have next : place i + 1 = place (i + 1) := by unfold place; omega
      have here : isHyphenPlace (place i) = false := by
        unfold isHyphenPlace place
        simp only [Bool.or_eq_false_iff, beq_eq_false_iff_ne]
        omega
      simp only [List.cons_append, List.nil_append, List.zipIdx_cons, List.all_cons, next, later, digit, here]
      rfl

theorem hyphenate_length (i : Nat) (cs : List Char) : place i + (hyphenate i cs).length = place (i + cs.length) := by
  induction cs generalizing i with
  | nil => rfl
  | cons c rest ih =>
    have later := ih (i + 1)
    rw [Nat.add_right_comm, Nat.add_assoc] at later
    rw [List.length_cons, ← later, hyphenate_cons, List.length_append]
    split
    case isTrue hyphen =>
      have next : place (i + 1) = place i + 2 := by unfold place; omega
      rw [next, List.length_cons, List.length_cons, List.length_nil]
      omega
    case isFalse plain =>
      have next : place (i + 1) = place i + 1 := by unfold place; omega
      rw [next, List.length_cons, List.length_nil]
      omega

theorem readSimple?_digits (u : Uuid) : readSimple? (u.digits.map Nat.digitChar) = some u := by
  have read : (u.digits.map Nat.digitChar).mapM hexDigit? = some u.digits := by
    have digit : ∀ ds : List Nat, (∀ d ∈ ds, d < 16) → (ds.map Nat.digitChar).mapM hexDigit? = some ds := by
      intro ds bounded
      induction ds with
      | nil => rfl
      | cons d rest ih =>
        obtain ⟨small, others⟩ := List.forall_mem_cons.mp bounded
        have first : hexDigit? (Nat.digitChar d) = some d := Json.hexDigit?_hexDigit small
        rw [List.map_cons, List.mapM_cons, ih others, first]
        rfl
    exact digit u.digits u.bounded
  rw [readSimple?, read]
  exact dif_pos ⟨u.count, u.bounded⟩

theorem ofText?_text (u : Uuid) : ofText? u.text = some u := by
  have plain : ∀ c ∈ u.digits.map Nat.digitChar, c ≠ '-' := by
    intro c member
    obtain ⟨d, digit, rfl⟩ := List.mem_map.mp member
    exact digitChar_ne_hyphen (u.bounded d digit)
  have length : (hyphenate 0 (u.digits.map Nat.digitChar)).length = 36 := by
    have places := hyphenate_length 0 (u.digits.map Nat.digitChar)
    rw [List.length_map, u.count] at places
    exact (Nat.zero_add _).symm.trans places
  have hyphened := hyphenate_places 0 plain
  have way : ofText? u.text = readHyphenated? (hyphenate 0 (u.digits.map Nat.digitChar)) := by
    simp only [ofText?, text, String.toList_ofList, length]
  rw [way, readHyphenated?, if_pos ⟨length, hyphened⟩, hyphenate_filter 0 plain, readSimple?_digits]

end Uuid

theorem Date.ofText?_text (d : Date) : ofText? d.text = some d := by
  have chars := d.read?_chars []
  rw [List.append_nil] at chars
  rw [ofText?, text, String.toList_ofList, chars]

theorem Time.ofText?_text {t : Time} (told : t.Told) : ofText? t.text = some t := by
  have chars := read?_chars told .nil nofun
  rw [List.append_nil] at chars
  rw [ofText?, text, String.toList_ofList, chars]

namespace Timestamp

-- A year that a strict text has room for.
def Dated (t : Timestamp) : Prop := 0 ≤ t.date.year ∧ t.date.year ≤ 9999

instance (t : Timestamp) : Decidable t.Dated := inferInstanceAs (Decidable (_ ∧ _))

theorem readExactly?_padLeft {width n : Nat} (fits : n < 10 ^ width) (wide : 0 < width) (rest : List Char) :
    readExactly? width (padLeft width n ++ rest) = some (n, rest) := by
  have length := padLeft_length fits wide
  have taken : (padLeft width n ++ rest).take width = padLeft width n := List.take_left' length
  have dropped : (padLeft width n ++ rest).drop width = rest := List.drop_left' length
  unfold readExactly?
  dsimp only
  rw [taken, dropped, if_pos ⟨length, (padLeft_digits width n).all⟩, padLeft_value]

theorem zeroOffset_ends : DigitsEnd "+00:00".toList := .cons (by decide) _

theorem zeroOffset_pointless (tail : List Char) : "+00:00".toList ≠ '.' :: tail := by simp

theorem readOffset?_zero : readOffset? "+00:00".toList = some (0, []) := by decide

theorem ofLocal?_zero (t : Timestamp) : ofLocal? t.date t.time 0 = some t := by
  have inDay : (t.time.seconds : Int) < secondsPerDay := by exact_mod_cast t.time.inDay
  have seconds : ((t.time.seconds : Int) % secondsPerDay).toNat = t.time.seconds := by
    rw [Int.emod_eq_of_lt (Int.natCast_nonneg _) inDay]
    exact Int.toNat_natCast _
  have early : ¬ (t.time.seconds : Int) < 0 := by omega
  have late : ¬ (secondsPerDay : Int) ≤ t.time.seconds := by omega
  simp only [ofLocal?, Int.zero_mul, Int.sub_zero, early, late, if_false, seconds, Time.ofSeconds?_self,
    Option.bind_eq_bind, Option.bind_some]

theorem bind_found {o : Option α} {a : α} (found : o = some a) (next : α → Option β) : (o >>= next) = next a := by
  rw [found]
  rfl

theorem readStrict?_dated {t : Timestamp} (told : t.time.Told) (dated : t.Dated) :
    readStrict? (t.chars ++ "+00:00".toList) = some t := by
  obtain ⟨_, _, _, month, _, day⟩ := t.date.valid
  have inDay := t.time.inDay
  have bounded := t.time.bounded
  unfold secondsPerDay at inDay
  unfold nanosPerSecond at bounded
  have year : Date.yearText t.date.year = padLeft 4 t.date.year.toNat := if_pos dated
  have whole : (t.date.year.toNat : Int) = t.date.year := Int.toNat_of_nonneg dated.1
  have yearFits : t.date.year.toNat < 10 ^ 4 := by
    have most := dated.2
    omega
  have monthFits : t.date.month < 10 ^ 2 := Nat.lt_of_le_of_lt month (by decide)
  have dayFits : t.date.day < 10 ^ 2 := Nat.lt_of_le_of_lt (Nat.le_trans day (daysInMonth_le ..)) (by decide)
  have hourFits : t.time.seconds / 3600 < 10 ^ 2 := by omega
  have minuteFits : t.time.seconds / 60 % 60 < 10 ^ 2 := by omega
  have secondFits : t.time.seconds % 60 + t.time.nanos / nanosPerSecond < 10 ^ 2 := by unfold nanosPerSecond; omega
  have within : t.time.nanos % nanosPerSecond < nanosPerSecond := Nat.mod_lt _ (by decide)
  have separator : isSeparator 'T' = true := by decide
  rw [chars, Date.chars, Time.chars, year]
  simp only [List.append_assoc, List.cons_append]
  unfold readStrict?
  refine (bind_found (readExactly?_padLeft yearFits (by decide) _) _).trans ?_
  refine (bind_found (expectChar?_here '-' _) _).trans ?_
  refine (bind_found (readExactly?_padLeft monthFits (by decide) _) _).trans ?_
  refine (bind_found (expectChar?_here '-' _) _).trans ?_
  refine (bind_found (readExactly?_padLeft dayFits (by decide) _) _).trans ?_
  refine (if_pos separator).trans ?_
  refine (bind_found (readExactly?_padLeft hourFits (by decide) _) _).trans ?_
  refine (bind_found (expectChar?_here ':' _) _).trans ?_
  refine (bind_found (readExactly?_padLeft minuteFits (by decide) _) _).trans ?_
  refine (bind_found (expectChar?_here ':' _) _).trans ?_
  refine (bind_found (readExactly?_padLeft secondFits (by decide) _) _).trans ?_
  refine (bind_found (Time.readFraction?_fractionText within zeroOffset_ends zeroOffset_pointless) _).trans ?_
  refine (bind_found readOffset?_zero _).trans ?_
  dsimp only
  rw [whole]
  refine (bind_found t.date.ofParts?_self _).trans ?_
  refine (bind_found (Time.ofParts?_self told) _).trans ?_
  exact t.ofLocal?_zero

theorem readStrict?_undated {t : Timestamp} (undated : ¬ t.Dated) (rest : List Char) :
    readStrict? (t.chars ++ rest) = none := by
  have signed : ∃ sign more, t.chars ++ rest = sign :: more ∧ FilterQuery.isDigit sign = false := by
    have year : Date.yearText t.date.year = (if t.date.year < 0 then '-' else '+') :: padLeft 4 t.date.year.natAbs :=
      if_neg undated
    have written : t.chars ++ rest = (if t.date.year < 0 then '-' else '+') :: (padLeft 4 t.date.year.natAbs ++
        '-' :: padLeft 2 t.date.month ++ '-' :: padLeft 2 t.date.day ++ 'T' :: t.time.chars ++ rest) := by
      simp only [chars, Date.chars, year, List.cons_append, List.append_assoc]
    refine ⟨_, _, written, ?_⟩
    split <;> decide
  obtain ⟨sign, more, written, other⟩ := signed
  have refused : readExactly? 4 (sign :: more) = none := by
    unfold readExactly?
    simp [other]
  rw [written, readStrict?, refused]
  rfl

-- An offset is no part of a naive text.
theorem readNaive?_zoned {t : Timestamp} {zone : List Char} (told : t.time.Told) (ends : DigitsEnd zone)
    (noPoint : ∀ tail, zone ≠ '.' :: tail) (behind : zone.isEmpty = false) :
    readNaive? (expectChar? 'T') (t.chars ++ zone) = none ∧
      readNaive? (fun rest => some (trimStart rest)) (t.chars ++ zone) = none := by
  have letter : trimStart ('T' :: (t.time.chars ++ zone)) = 'T' :: (t.time.chars ++ zone) :=
    List.dropWhile_cons_of_neg (by decide)
  have noTime : Time.read? ('T' :: (t.time.chars ++ zone)) = none := by
    have noField : readField? 2 ('T' :: (t.time.chars ++ zone)) = none := by
      rw [readField?, letter]
      rfl
    rw [Time.read?, Time.readMinutes?, noField]
    rfl
  constructor
  · simp only [readNaive?, chars, List.append_assoc, List.cons_append, Date.read?_chars, expectChar?_here,
      Time.read?_chars told ends noPoint, Option.bind_eq_bind, Option.bind_some, behind, Bool.false_eq_true, if_false]
  · simp only [readNaive?, chars, List.append_assoc, List.cons_append, Date.read?_chars, letter, noTime,
      Option.bind_eq_bind, Option.bind_some, Option.bind_none]

theorem ofText?_text {t : Timestamp} (told : t.time.Told) : ofText? t.text = if t.Dated then some t else none := by
  obtain ⟨lettered, blank⟩ := readNaive?_zoned told zeroOffset_ends zeroOffset_pointless (by decide)
  rw [ofText?, text, String.toList_ofList, lettered, blank]
  by_cases dated : t.Dated
  · rw [if_pos dated, readStrict?_dated told dated]
    rfl
  · rw [if_neg dated, readStrict?_undated dated]
    rfl

end Timestamp
end FilterQuery
