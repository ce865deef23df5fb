import Mathlib.Algebra.Order.Ring.Nat
import Mensura.Proofs.Token.Overstep

/-!
The limits on tokens are exact. Main statements: a word, a comment, a text, the part of a number before its point and
its exponent are refused just if they exceed their limit, and at the first character with which they do; the digits
behind the point of a number are refused just if there are more of them than the limit allows or no word of 64 bits
holds the number that they make up.
-/

namespace Mensura

namespace Lexeme

open Token (Content Kind)

variable {limits : Limits} {text ds rest : List Char} {c : Char} {fault : LexicalFault}

/-! ### Where the parts of a number are -/

/-- A number begins here, and no zero is in front of its other digits. -/
def BeginsNumber (text : List Char) : Prop :=
  ∃ c rest, text = c :: rest ∧ c.isDigit = true ∧ (c = '0' → ∀ d, rest.head? = some d → d.isDigit = false)

/-- The digits at the front of a text. -/
def leadingDigits (text : List Char) : List Char := text.takeWhile Char.isDigit

/-- What stands behind the digits at the front. -/
def behindDigits (text : List Char) : List Char := text.dropWhile Char.isDigit

/-- What stands behind the point in front. Without a point this is nothing. -/
def behindPoint : List Char → List Char
  | '.' :: rest => rest
  | _ => []

/-- What stands behind the point in front and its digits. -/
def behindFraction : List Char → List Char
  | '.' :: rest => behindDigits rest
  | rest => rest

/-- What stands behind the letter of an exponent and its sign. Without the letter this is nothing. -/
def behindLetter : List Char → List Char
  | 'e' :: '-' :: rest => rest
  | 'e' :: rest => rest
  | _ => []

/-- The number that digits make up. -/
def valueOf (ds : List Char) : Nat := Nat.ofDigitChars 10 ds 0

/-- Digits behind a point of which there are too many, or which no word of 64 bits holds. -/
def TooManyPlaces (limits : Limits) (ds : List Char) : Prop :=
  limits.decimalPlaces < ds.length ∨ 9223372036854775808 ≤ valueOf ds

theorem behindPoint_length_le (text : List Char) : (behindPoint text).length ≤ text.length := by
  unfold behindPoint
  split <;> simp

theorem behindLetter_length_le (text : List Char) : (behindLetter text).length ≤ text.length := by
  unfold behindLetter
  split <;> simp
  omega

theorem lasting_length (limit : Nat) : Lasting fun part => limit < part.length := by
  intro front back long
  exact Nat.lt_of_lt_of_le long (List.length_append ▸ Nat.le_add_right _ _)

theorem valueOf_append (front back : List Char) : valueOf front ≤ valueOf (front ++ back) := by
  rw [valueOf, valueOf, Nat.ofDigitChars_append]
  exact le_ofDigitChars _ _

theorem lasting_value (limit : Int) : Lasting fun part => limit < valueOf part := by
  intro front back large
  have := valueOf_append front back
  omega

theorem lasting_places (limits : Limits) : Lasting (TooManyPlaces limits) := by
  rintro front back (long | large)
  · exact .inl (lasting_length _ front back long)
  · exact .inr (Nat.le_trans large (valueOf_append front back))

/-- Digits are fewer than any number that they do not make up. -/
theorem ofDigitChars_lt (all : ∀ c ∈ ds, c.isDigit = true) (value : Nat) :
    Nat.ofDigitChars 10 ds value < (value + 1) * 10 ^ ds.length := by
  induction ds generalizing value with
  | nil => simp
  | cons c ds ih =>
    obtain ⟨-, last⟩ := isDigit_iff.mp (all c List.mem_cons_self)
    have digit : c.toNat - '0'.toNat ≤ 9 := by
      change c.toNat - 48 ≤ 9
      omega
    calc Nat.ofDigitChars 10 (c :: ds) value
        = Nat.ofDigitChars 10 ds (10 * value + (c.toNat - '0'.toNat)) := Nat.ofDigitChars_cons
      _ < (10 * value + (c.toNat - '0'.toNat) + 1) * 10 ^ ds.length :=
        ih (fun d mem => all d (List.mem_cons_of_mem c mem)) _
      _ ≤ (10 * (value + 1)) * 10 ^ ds.length := Nat.mul_le_mul_right _ (by omega)
      _ = (value + 1) * 10 ^ (c :: ds).length := by
        rw [List.length_cons, Nat.pow_succ', Nat.mul_comm 10 (value + 1), Nat.mul_assoc]

/-- A word of 64 bits holds every number of at most 18 digits. -/
theorem tooManyPlaces_iff (few : limits.decimalPlaces ≤ 18) (all : ∀ c ∈ ds, c.isDigit = true) :
    TooManyPlaces limits ds ↔ limits.decimalPlaces < ds.length := by
  constructor
  · rintro (long | large)
    · exact long
    · by_contra short
      have small := ofDigitChars_lt all 0
      have powers : 10 ^ ds.length ≤ 10 ^ 18 := Nat.pow_le_pow_right (by decide) (by omega)
      rw [valueOf] at large
      omega
  · exact .inl

theorem ne_nil_of_tooManyPlaces (many : TooManyPlaces limits ds) : ds ≠ [] := by
  rintro rfl
  obtain long | large := many
  · exact absurd long (Nat.not_lt_zero _)
  · exact absurd large (by decide)

theorem BeginsNumber.leadingDigits_ne_nil (begins : BeginsNumber text) : leadingDigits text ≠ [] := by
  obtain ⟨c, rest, rfl, digit, -⟩ := begins
  rw [leadingDigits, List.takeWhile_cons_of_pos digit]
  exact List.cons_ne_nil _ _

/-! ### The parts of a number -/

theorem leadingDigits_eq_nil (stop : ∀ c, text.head? = some c → c.isDigit = false) : leadingDigits text = [] := by
  have all : ∀ c ∈ ([] : List Char), c.isDigit = true := nofun
  exact takeWhile_append_apart all stop

theorem isDigit_of_mem_leadingDigits (text : List Char) : ∀ c ∈ leadingDigits text, c.isDigit = true :=
  fun _ => List.mem_takeWhile_imp

theorem Digits.reading_fault {d : Digits} {found : LexicalFault} (h : (d.reading fault).outcome = .error found) :
    found = fault := by
  unfold Digits.reading at h
  dsimp only at h
  split at h <;> cases h
  rfl

theorem whole_keeps (limits : Limits) (text : List Char) :
    (whole limits text).Keeps (.numberTooLarge limits.integer) (fun ds => limits.integer.toInt < valueOf ds) 0
      (leadingDigits text) := by
  apply digits_keeps (lasting_value _)
  simp [Refuses, valueOf]

theorem fraction_point (limits : Limits) (rest : List Char) : fraction limits ('.' :: rest) =
    (((digits (fun count value => count ≤ limits.decimalPlaces && value < 9223372036854775808) 0 0 rest).reading
      (.tooManyPlaces limits.decimalPlaces)).map some).after 1 :=
  rfl

theorem fraction_keeps (limits : Limits) (text : List Char) :
    (fraction limits text).Keeps (.tooManyPlaces limits.decimalPlaces) (TooManyPlaces limits)
      (text.length - (behindPoint text).length) (leadingDigits (behindPoint text)) := by
  by_cases point : text.head? = some '.'
  · obtain ⟨rest, rfl⟩ := List.head?_eq_some_iff.mp point
    have offset : ('.' :: rest).length - (behindPoint ('.' :: rest)).length = 1 + 0 := by
      rw [behindPoint, List.length_cons]
      omega
    rw [offset, fraction_point]
    refine ((digits_keeps (lasting_places limits) ?_ _ rest).map some).after 1
    simp [Refuses, TooManyPlaces, valueOf, imp_iff_not_or]
  · have none : behindPoint text = [] := by
      unfold behindPoint
      split
      · exact absurd rfl point
      · rfl
    rw [fraction_eq_none point, none]
    exact .nil (by rintro ⟨⟩)

theorem fraction_fault (h : (fraction limits text).outcome = .error fault) :
    fault = .tooManyPlaces limits.decimalPlaces := by
  unfold fraction at h
  split at h
  · exact Digits.reading_fault (map_eq_error.mp h)
  · cases h

theorem exponentDigits_keeps (limits : Limits) (text : List Char) :
    (exponentDigits limits text).Keeps (.exponentTooLarge limits.exponent)
      (fun ds => limits.exponent.toInt < valueOf ds) 0 (leadingDigits text) := by
  by_cases digit : ∃ c, text.head? = some c ∧ c.isDigit = true
  · obtain ⟨c, head, digit⟩ := digit
    obtain ⟨rest, rfl⟩ := List.head?_eq_some_iff.mp head
    rw [exponentDigits_cons digit]
    refine (digits_keeps (lasting_value _) ?_ _ _).map _
    simp [Refuses, valueOf]
  · have stop : ∀ c, text.head? = some c → c.isDigit = false := by
      intro c head
      rw [Bool.eq_false_iff]
      exact fun isDigit => digit ⟨c, head, isDigit⟩
    rw [exponentDigits_stop stop, leadingDigits_eq_nil stop]
    exact .nil (by rintro ⟨⟩)

theorem exponentDigits_fault (h : (exponentDigits limits text).outcome = .error fault) :
    fault = .exponentTooLarge limits.exponent := by
  unfold exponentDigits at h
  split at h
  · exact Digits.reading_fault (map_eq_error.mp h)
  · cases h

theorem exponent_fault (h : (exponent limits text).outcome = .error fault) :
    fault = .exponentTooLarge limits.exponent := by
  unfold exponent at h
  split at h
  · exact exponentDigits_fault (map_eq_error.mp h)
  · exact exponentDigits_fault (map_eq_error.mp h)
  · cases h

theorem exponent_keeps (limits : Limits) (text : List Char) :
    (exponent limits text).Keeps (.exponentTooLarge limits.exponent) (fun ds => limits.exponent.toInt < valueOf ds)
      (text.length - (behindLetter text).length) (leadingDigits (behindLetter text)) := by
  unfold exponent
  split
  · rename_i rest
    have offset : ('e' :: '-' :: rest).length - rest.length = 2 + 0 := by
      rw [List.length_cons, List.length_cons]
      omega
    rw [behindLetter.eq_1, offset]
    exact ((exponentDigits_keeps limits rest).map _).after 2
  · rename_i rest unsigned
    have offset : ('e' :: rest).length - rest.length = 1 + 0 := by
      rw [List.length_cons]
      omega
    rw [behindLetter.eq_2 rest unsigned, offset]
    exact ((exponentDigits_keeps limits rest).map _).after 1
  · rename_i signed unsigned
    rw [behindLetter.eq_3 text signed unsigned]
    exact .nil (by rintro ⟨⟩)

/-! ### Numbers -/

/-- Digits that are not too many are all that are there. -/
theorem digits_eq_of_kept {admits : Nat → Nat → Bool} {value count : Nat}
    (kept : (digits admits value count text).exceeded = false) : digits admits value count text =
      ⟨Nat.ofDigitChars 10 (leadingDigits text) value, count + (leadingDigits text).length, false⟩ := by
  fun_induction digits admits value count text with
  | case1 => rfl
  | case2 value count c rest digit next admitted ih =>
    have more : leadingDigits (c :: rest) = c :: leadingDigits rest := List.takeWhile_cons_of_pos digit
    rw [ih kept, more, Nat.ofDigitChars_cons, List.length_cons, Nat.add_assoc, Nat.add_comm 1]
    rfl
  | case3 => cases kept
  | case4 value count c rest other =>
    have none : leadingDigits (c :: rest) = [] := List.takeWhile_cons_of_neg other
    rw [none]
    rfl

theorem Digits.eq_leadingDigits {admits : Nat → Nat → Bool} {d : Digits}
    (read : ((digits admits 0 0 text).reading fault).outcome = .ok d) :
    d = ⟨valueOf (leadingDigits text), (leadingDigits text).length, false⟩ := by
  rw [Digits.eq_of_reading read, digits_eq_of_kept (Digits.exceeded_eq_false read), Nat.zero_add, valueOf]

theorem length_leadingDigits (text : List Char) :
    (leadingDigits text).length + (behindDigits text).length = text.length := by
  rw [← List.length_append, leadingDigits, behindDigits, List.takeWhile_append_dropWhile]

theorem drop_leadingDigits (text : List Char) : text.drop (leadingDigits text).length = behindDigits text := by
  nth_rewrite 2 [← List.takeWhile_append_dropWhile (p := Char.isDigit) (l := text)]
  exact List.drop_left

/-- The parts of a number that has no part too large before the point. -/
theorem whole_kept {w : Digits} (read : (whole limits text).outcome = .ok w) :
    w.value = valueOf (leadingDigits text) ∧ (whole limits text).consumed = (leadingDigits text).length := by
  rw [whole_consumed read, Digits.eq_leadingDigits read]
  exact ⟨rfl, rfl⟩

theorem fraction_drop {f : Option Digits} (read : (fraction limits text).outcome = .ok f) :
    text.drop (fraction limits text).consumed = behindFraction text := by
  by_cases point : text.head? = some '.'
  · obtain ⟨rest, rfl⟩ := List.head?_eq_some_iff.mp point
    rw [fraction_consumed read]
    obtain ⟨d, found, rfl⟩ := map_eq_ok.mp read
    rw [Digits.eq_leadingDigits found, Option.elim_some, Nat.add_comm, List.drop_succ_cons, drop_leadingDigits]
    rfl
  · have none : behindFraction text = text := by
      unfold behindFraction
      split
      · exact absurd rfl point
      · rfl
    rw [fraction_eq_none point, none, List.drop_zero]

theorem fraction_length {f : Option Digits} (read : (fraction limits text).outcome = .ok f) :
    (fraction limits text).consumed + (behindFraction text).length = text.length := by
  obtain ⟨lexeme, tail, rfl, length, -⟩ := fraction_local limits text f read
  rw [← fraction_drop read, length, List.drop_left, List.length_append]

/-- What a number is refused for behind its whole part. -/
theorem decimals_fault {w : Digits}
    (h : ((fraction limits text).andThen fun f =>
      (exponent limits (text.drop (fraction limits text).consumed)).map (numeralContent w f)).outcome = .error fault) :
    fault = .tooManyPlaces limits.decimalPlaces ∨ fault = .exponentTooLarge limits.exponent := by
  unfold Reading.andThen at h
  split at h
  · exact .inr (exponent_fault (map_eq_error.mp h))
  · rename_i found read
    exact .inl (Except.error.inj h ▸ fraction_fault read)

theorem numeral_integer_keeps (limits : Limits) (text : List Char) :
    (numeral limits text).Keeps (.numberTooLarge limits.integer) (fun ds => limits.integer.toInt < valueOf ds) 0
      (leadingDigits text) := by
  rw [numeral_eq]
  apply (whole_keeps limits text).andThen
  intro w refused
  obtain places | exponent := decimals_fault refused
  · cases places
  · cases exponent

/-- Behind a whole part that is not too large the other parts of a number are read. -/
theorem numeral_eq_of_fits (fits : valueOf (leadingDigits text) ≤ limits.integer.toInt) : ∃ w, numeral limits text =
    ((fraction limits (behindDigits text)).andThen fun f =>
      (exponent limits ((behindDigits text).drop (fraction limits (behindDigits text)).consumed)).map
        (numeralContent w f)).after (leadingDigits text).length := by
  cases read : (whole limits text).outcome with
  | ok w =>
    obtain ⟨-, consumed⟩ := whole_kept read
    exists w
    rw [numeral_eq]
    dsimp only
    rw [Reading.andThen_of_ok read, consumed, drop_leadingDigits]
  | error fault =>
    obtain rfl := Digits.reading_fault read
    exact absurd ((whole_keeps limits text).refused_iff.mp read).2 (Int.not_lt.mpr fits)

theorem numeral_places_keeps (fits : valueOf (leadingDigits text) ≤ limits.integer.toInt) :
    (numeral limits text).Keeps (.tooManyPlaces limits.decimalPlaces) (TooManyPlaces limits)
      (text.length - (behindPoint (behindDigits text)).length) (leadingDigits (behindPoint (behindDigits text))) := by
  obtain ⟨w, parts⟩ := numeral_eq_of_fits fits
  have offset : text.length - (behindPoint (behindDigits text)).length = (leadingDigits text).length +
      ((behindDigits text).length - (behindPoint (behindDigits text)).length) := by
    have := length_leadingDigits text
    have := behindPoint_length_le (behindDigits text)
    omega
  rw [parts, offset]
  apply Reading.Keeps.after
  apply (fraction_keeps limits (behindDigits text)).andThen
  intro f refused
  exact nomatch exponent_fault (map_eq_error.mp refused)

theorem numeral_exponent_keeps (fits : valueOf (leadingDigits text) ≤ limits.integer.toInt)
    (few : ¬ TooManyPlaces limits (leadingDigits (behindPoint (behindDigits text)))) :
    (numeral limits text).Keeps (.exponentTooLarge limits.exponent)
      (fun ds => limits.exponent.toInt < valueOf ds)
      (text.length - (behindLetter (behindFraction (behindDigits text))).length)
      (leadingDigits (behindLetter (behindFraction (behindDigits text)))) := by
  obtain ⟨w, parts⟩ := numeral_eq_of_fits fits
  cases read : (fraction limits (behindDigits text)).outcome with
  | ok f =>
    have offset : text.length - (behindLetter (behindFraction (behindDigits text))).length =
        (leadingDigits text).length + ((fraction limits (behindDigits text)).consumed +
          ((behindFraction (behindDigits text)).length -
            (behindLetter (behindFraction (behindDigits text))).length)) := by
      have := length_leadingDigits text
      have := behindLetter_length_le (behindFraction (behindDigits text))
      have := fraction_length read
      omega
    rw [parts, offset, Reading.andThen_of_ok read, fraction_drop read]
    apply Reading.Keeps.after
    apply Reading.Keeps.after
    exact (exponent_keeps limits (behindFraction (behindDigits text))).map (numeralContent w f)
  | error fault =>
    obtain rfl := fraction_fault read
    exact absurd ((fraction_keeps limits _).refused_iff.mp read).2 few

theorem read_number (begins : BeginsNumber text) : read limits text = numeral limits text := by
  obtain ⟨c, rest, rfl, digit, only⟩ := begins
  rw [read_digit digit, number_eq_numeral only]

/-- Only a number is an integer, and that is the value of its digits. -/
theorem numeral_int {content : Content} (begins : BeginsNumber text) (h : (numeral limits text).outcome = .ok content)
    (kind : content.kind = .intLiteral) :
    ∃ n : Int64, content.value = some (.int n) ∧ n.toInt = valueOf (leadingDigits text) := by
  obtain ⟨c, rest, rfl, digit, -⟩ := begins
  obtain ⟨w, read, h⟩ := Reading.andThen_eq_ok.mp h
  obtain ⟨f, -, h⟩ := Reading.andThen_eq_ok.mp h
  obtain ⟨e, -, rfl⟩ := map_eq_ok.mp h
  cases e <;> cases f <;> cases kind
  exact ⟨_, rfl, by rw [(whole_value digit read).1, (whole_kept read).1]⟩

theorem begins_of_int {content : Content} (h : (read limits text).outcome = .ok content)
    (kind : content.kind = .intLiteral) : BeginsNumber text := by
  obtain ⟨comment, -⟩ | ⟨c, rest, rfl, digit, read⟩ | other := read_cases h
  · cases comment.symm.trans kind
  · refine ⟨c, rest, rfl, digit, ?_⟩
    rintro rfl d head
    obtain ⟨rest, rfl⟩ := List.head?_eq_some_iff.mp head
    rw [Bool.eq_false_iff]
    intro second
    rw [number_invalid second] at read
    cases read
    cases kind
  · rw [kind] at other
    cases other

/-! ### Words and comments -/

theorem word_keeps (limits : Limits) (text : List Char) :
    (word limits text).Keeps (.identifierTooLong limits.identifier) (fun part => limits.identifier < part.length) 0
      (text.takeWhile Text.isWordChar) := by
  apply Reading.keeps_length
  exact nofun

theorem comment_keeps (limits : Limits) (text : List Char) :
    (comment limits text).Keeps (.commentTooLong limits.comment) (fun part => limits.comment < part.length) 0
      (text.takeWhile (!isLineBreak ·)) := by
  apply Reading.keeps_length
  exact nofun

end Lexeme

/-! ### Calls -/

namespace Cursor

open Lexeme (Oversteps BeginsNumber Decodes decodedLength leadingDigits behindDigits behindPoint behindFraction
  behindLetter valueOf TooManyPlaces)

variable {limits : Limits} {s : Cursor} {fault : LexicalFault} {tooMuch : List Char → Prop} {before : Nat}
  {part : List Char}

/-- The next call is answered with `fault`. -/
def RefusedFor (limits : Limits) (s : Cursor) (fault : LexicalFault) : Prop :=
  ∃ p, (s.next limits).1 = .error ⟨fault, p⟩

/-- The next call is answered with `fault` just if the characters `part` are too much, and then it stops at the first
of them with which they are. The first character of `part` is `before` characters behind the blanks. -/
structure Keeps (limits : Limits) (s : Cursor) (fault : LexicalFault) (tooMuch : List Char → Prop) (before : Nat)
    (part : List Char) : Prop where
  refused_iff : s.RefusedFor limits fault ↔ part ≠ [] ∧ tooMuch part
  stops : ∀ p, (s.next limits).1 = .error ⟨fault, p⟩ →
    ∃ k, Oversteps tooMuch part k ∧ p = (advanceBy (before + k) s.skipBlanks).position

theorem next_eq_error {p : Position} : (s.next limits).1 = .error ⟨fault, p⟩ ↔
    (Lexeme.read limits s.skipBlanks.rest).outcome = .error fault ∧
      p = (advanceBy (Lexeme.read limits s.skipBlanks.rest).consumed s.skipBlanks).position := by
  unfold next
  dsimp only
  cases (Lexeme.read limits s.skipBlanks.rest).outcome with
  | ok content => simp
  | error found => simp [eq_comm]

theorem Keeps.of_read (h : (Lexeme.read limits s.skipBlanks.rest).Keeps fault tooMuch before part) :
    s.Keeps limits fault tooMuch before part where
  refused_iff := by
    rw [← h.refused_iff]
    simp [RefusedFor, next_eq_error]
  stops p refused := by
    obtain ⟨read, rfl⟩ := next_eq_error.mp refused
    obtain ⟨k, oversteps, consumed⟩ := h.stops read
    exact ⟨k, oversteps, by rw [consumed]⟩

theorem keeps_number (begins : BeginsNumber s.skipBlanks.rest)
    (h : (Lexeme.numeral limits s.skipBlanks.rest).Keeps fault tooMuch before part) :
    s.Keeps limits fault tooMuch before part := by
  apply Keeps.of_read
  rw [Lexeme.read_number begins]
  exact h

theorem keeps_text {raw cs tail : List Char} (ahead : s.skipBlanks.rest = '"' :: (raw ++ '"' :: tail))
    (decodes : Decodes raw cs) :
    s.Keeps limits (.textTooLong limits.text) (fun part => limits.text < decodedLength part) 1 raw := by
  apply Keeps.of_read
  rw [ahead]
  exact ((Lexeme.quotedBody_keeps decodes tail).map _).after 1

theorem keeps_exponent (begins : BeginsNumber s.skipBlanks.rest)
    (fits : ¬ s.RefusedFor limits (.numberTooLarge limits.integer))
    (few : ¬ s.RefusedFor limits (.tooManyPlaces limits.decimalPlaces)) :
    s.Keeps limits (.exponentTooLarge limits.exponent) (fun part => limits.exponent.toInt < valueOf part)
      (s.skipBlanks.rest.length - (behindLetter (behindFraction (behindDigits s.skipBlanks.rest))).length)
      (leadingDigits (behindLetter (behindFraction (behindDigits s.skipBlanks.rest)))) := by
  apply keeps_number begins
  rw [(keeps_number begins (Lexeme.numeral_integer_keeps limits _)).refused_iff] at fits
  have fits := Int.not_lt.mp fun large => fits ⟨begins.leadingDigits_ne_nil, large⟩
  rw [(keeps_number begins (Lexeme.numeral_places_keeps fits)).refused_iff] at few
  have few := fun many => few ⟨Lexeme.ne_nil_of_tooManyPlaces many, many⟩
  exact Lexeme.numeral_exponent_keeps fits few

theorem value_of_int {token : Token} (read : (s.next limits).1 = .ok token) (kind : token.kind = .intLiteral) :
    ∃ n : Int64, token.value = some (.int n) ∧ n.toInt = valueOf (leadingDigits s.skipBlanks.rest) := by
  unfold next at read
  dsimp only at read
  split at read
  · rename_i content outcome
    cases read
    have begins := Lexeme.begins_of_int outcome kind
    rw [Lexeme.read_number begins] at outcome
    exact Lexeme.numeral_int begins outcome kind
  · cases read

/-- A number whose part before the point is not too large is refused for the digits behind the point just if there are
more of them than the limit allows, or if no word of 64 bits holds the number that they make up, and then at the first
digit with which that is so. A limit of at most 18 digits is exact. -/
theorem places_refused_iff (limits : Limits) (s : Cursor) (begins : BeginsNumber s.skipBlanks.rest)
    (fits : valueOf (leadingDigits s.skipBlanks.rest) ≤ limits.integer.toInt) :
    let behind := behindPoint (behindDigits s.skipBlanks.rest)
    s.Keeps limits (.tooManyPlaces limits.decimalPlaces)
      (fun ds => limits.decimalPlaces < ds.length ∨ 9223372036854775808 ≤ valueOf ds)
      (s.skipBlanks.rest.length - behind.length) (leadingDigits behind) ∧
    (limits.decimalPlaces ≤ 18 → (s.RefusedFor limits (.tooManyPlaces limits.decimalPlaces) ↔
      limits.decimalPlaces < (leadingDigits behind).length)) := by
  have keeps := keeps_number begins (Lexeme.numeral_places_keeps fits)
  constructor
  · exact keeps
  · intro few
    rw [keeps.refused_iff, Lexeme.tooManyPlaces_iff few (Lexeme.isDigit_of_mem_leadingDigits _), and_iff_right_iff_imp]
    exact fun long => List.ne_nil_of_length_pos (Nat.zero_lt_of_lt long)

/-- The default limit, and one place more than it. -/
theorem places_refused_iff_default :
    (ofText "1.000000000000000001").RefusedFor {} (.tooManyPlaces 17) :=
  ((places_refused_iff {} _ ⟨'1', _, rfl, rfl, nofun⟩ (by decide)).2 (by decide)).mpr (by decide)

/-- With a limit of 20 places 19 are refused, as no word of 64 bits holds these. -/
theorem places_refused_below_limit :
    let s := ofText "0.9223372036854775808"
    let limits : Limits := { decimalPlaces := 20 }
    BeginsNumber s.skipBlanks.rest ∧ valueOf (leadingDigits s.skipBlanks.rest) ≤ limits.integer.toInt ∧
      ¬ limits.decimalPlaces < (leadingDigits (behindPoint (behindDigits s.skipBlanks.rest))).length ∧
      s.RefusedFor limits (.tooManyPlaces limits.decimalPlaces) :=
  ⟨⟨'0', _, rfl, rfl, by rintro - d ⟨⟩; rfl⟩, by decide, by decide, ⟨1, 21⟩, by decide⟩

/-- The other limits are exact, whatever they are. A word, a comment, a text, the part of a number before its point and
the exponent of a number that is not refused for its other parts are refused just if they are larger than their limit,
and then at the first character with which they are. An integer that is not refused has the value of its digits. -/
theorem limits_exact (limits : Limits) (s : Cursor) :
    let ahead := s.skipBlanks.rest
    (∀ c rest, ahead = c :: rest → Text.isAlphabetic c = true →
      s.Keeps limits (.identifierTooLong limits.identifier) (fun part => limits.identifier < part.length) 0
        (ahead.takeWhile Text.isWordChar)) ∧
    (∀ rest, ahead = '/' :: '/' :: rest →
      s.Keeps limits (.commentTooLong limits.comment) (fun part => limits.comment < part.length) 2
        (rest.takeWhile (!isLineBreak ·))) ∧
    (∀ raw cs tail, ahead = '"' :: (raw ++ '"' :: tail) → Decodes raw cs → decodedLength raw = cs.length ∧
      s.Keeps limits (.textTooLong limits.text) (fun part => limits.text < decodedLength part) 1 raw) ∧
    (BeginsNumber ahead →
      s.Keeps limits (.numberTooLarge limits.integer) (fun part => limits.integer.toInt < valueOf part) 0
        (leadingDigits ahead) ∧
      (¬ s.RefusedFor limits (.numberTooLarge limits.integer) →
        ¬ s.RefusedFor limits (.tooManyPlaces limits.decimalPlaces) →
        let behind := behindLetter (behindFraction (behindDigits ahead))
        s.Keeps limits (.exponentTooLarge limits.exponent) (fun part => limits.exponent.toInt < valueOf part)
          (ahead.length - behind.length) (leadingDigits behind))) ∧
    (∀ token, (s.next limits).1 = .ok token → token.kind = .intLiteral →
      ∃ n : Int64, token.value = some (.int n) ∧ n.toInt = valueOf (leadingDigits ahead)) := by
  intro ahead
  constructor
  · intro c rest split letter
    apply Keeps.of_read
    rw [show s.skipBlanks.rest = c :: rest from split, Lexeme.read_letter letter, split]
    exact Lexeme.word_keeps limits (c :: rest)
  constructor
  · intro rest split
    apply Keeps.of_read
    rw [show s.skipBlanks.rest = '/' :: '/' :: rest from split]
    exact (Lexeme.comment_keeps limits rest).after 2
  constructor
  · intro raw cs tail split decodes
    exact ⟨decodes.decodedLength_eq, keeps_text split decodes⟩
  constructor
  · intro begins
    exact ⟨keeps_number begins (Lexeme.numeral_integer_keeps limits ahead), keeps_exponent begins⟩
  · intro token read kind
    exact value_of_int read kind

/-- A word, a comment, a text with an escape, an integer under a negative limit and an exponent, each larger than its
limit, and an integer with its value. -/
theorem limits_exact_overstepped :
    (ofText "if2").RefusedFor { identifier := 2 } (.identifierTooLong 2) ∧
    (ofText " //abc").RefusedFor { comment := 2 } (.commentTooLong 2) ∧
    (ofText "\"\\nab\"").RefusedFor { text := 2 } (.textTooLong 2) ∧
    (ofText "0").RefusedFor { integer := -1 } (.numberTooLarge (-1)) ∧
    (ofText "1.5e-10").RefusedFor { exponent := 9 } (.exponentTooLarge 9) ∧
    ∃ n : Int64, ((ofText "42").next {}).1 = .ok ⟨⟨.intLiteral, some (.int n)⟩, ⟨1, 1⟩⟩ ∧ n.toInt = 42 := by
  constructor
  · have keeps := (limits_exact { identifier := 2 } (ofText "if2")).1 'i' ['f', '2'] rfl rfl
    exact keeps.refused_iff.mpr ⟨by decide, by decide⟩
  constructor
  · have keeps := (limits_exact { comment := 2 } (ofText " //abc")).2.1 ['a', 'b', 'c'] rfl
    exact keeps.refused_iff.mpr ⟨by decide, by decide⟩
  constructor
  · have decodes : Lexeme.Decodes ['\\', 'n', 'a', 'b'] ['\n', 'a', 'b'] :=
      .escape rfl (.plain (by decide) (by decide) (.plain (by decide) (by decide) .nil))
    have keeps := ((limits_exact { text := 2 } (ofText "\"\\nab\"")).2.2.1 _ _ [] rfl decodes).2
    exact keeps.refused_iff.mpr ⟨by decide, by decide⟩
  constructor
  · have keeps := ((limits_exact { integer := -1 } (ofText "0")).2.2.2.1 ⟨'0', [], rfl, rfl, nofun⟩).1
    exact keeps.refused_iff.mpr ⟨by decide, by decide⟩
  constructor
  · obtain ⟨integer, exponent⟩ :=
      (limits_exact { exponent := 9 } (ofText "1.5e-10")).2.2.2.1 ⟨'1', _, rfl, rfl, nofun⟩
    have fits := mt integer.refused_iff.mp (by decide)
    have told : ((ofText "1.5e-10").next { exponent := 9 }).1 = .error ⟨.exponentTooLarge 9, ⟨1, 7⟩⟩ := by decide
    have few : ¬ (ofText "1.5e-10").RefusedFor { exponent := 9 } (.tooManyPlaces 17) := by
      rintro ⟨p, refused⟩
      cases told.symm.trans refused
    exact (exponent fits few).refused_iff.mpr ⟨by decide, by decide⟩
  · have read : ((ofText "42").next {}).1 = .ok ⟨⟨.intLiteral, some (.int 42)⟩, ⟨1, 1⟩⟩ := by decide
    obtain ⟨n, same, value⟩ := (limits_exact {} (ofText "42")).2.2.2.2 _ read rfl
    cases same
    exact ⟨42, read, value.trans (by decide)⟩

end Cursor

end Mensura
