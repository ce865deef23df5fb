import Mensura.Proofs.Token.Spelling

/-!
How far the reading of a token looks. It takes the characters of the token and looks at no more than one character
behind them. Main statement: a token is read in the same way from its own characters when what stands behind them is
replaced by a text that begins with the same character, or with a blank, or is empty; a comment needs the first, as it
goes on to the end of its line, and so does a zero that is cut off from the digits behind it.
-/

namespace Mensura

namespace Lexeme

open Token (Content Kind)

variable {limits : Limits} {new old text rest : List Char} {c : Char}

/-- The text is at its end or goes on with a blank. -/
def Detached (text : List Char) : Prop := ∀ c, text.head? = some c → isBlank c = true

/-- Behind a token `old` may be replaced by `new`: it begins in the same way, or keeps clear of the token. -/
def Replaces (new old : List Char) : Prop := new.head? = old.head? ∨ Detached new

theorem Replaces.append (h : Replaces new old) (front : List Char) : Replaces (front ++ new) (front ++ old) := by
  cases front with
  | nil => exact h
  | cons c front => exact .inl rfl

/-- What has stopped at `old` stops at `new` as well, as it goes on over no blanks. -/
theorem Replaces.stop {p : Char → Bool} (h : Replaces new old) (blanks : ∀ c, isBlank c = true → p c = false)
    (stop : ∀ c, old.head? = some c → p c = false) : ∀ c, new.head? = some c → p c = false := by
  intro c head
  obtain same | detached := h
  · exact stop c (same ▸ head)
  · exact blanks c (detached c head)

/-- A character that is no blank does not come first where it has not come first. -/
theorem Replaces.head?_ne (h : Replaces new old) (visible : isBlank c = false) (other : old.head? ≠ some c) :
    new.head? ≠ some c := by
  intro head
  obtain same | detached := h
  · exact other (same ▸ head)
  · rw [detached c head] at visible
    cases visible

theorem isBlank_cases (blank : isBlank c = true) : c = ' ' ∨ c = '\t' ∨ c = '\r' ∨ c = '\n' := by
  simpa [isBlank, or_assoc] using blank

theorem not_isWordChar_of_isBlank (c : Char) (blank : isBlank c = true) : Text.isWordChar c = false := by
  obtain rfl | rfl | rfl | rfl := isBlank_cases blank <;> decide

theorem not_isDigit_of_isBlank (c : Char) (blank : isBlank c = true) : c.isDigit = false := by
  obtain rfl | rfl | rfl | rfl := isBlank_cases blank <;> decide

end Lexeme

namespace Reading

open Lexeme (Replaces)

variable {α β : Type}

/-- What is read takes some characters of the text, and it is read from them again when what stands behind them is
replaced. -/
def Local (r : List Char → Reading α) : Prop :=
  ∀ text a, (r text).outcome = .ok a → ∃ lexeme tail, text = lexeme ++ tail ∧ (r text).consumed = lexeme.length ∧
    ∀ new, Replaces new tail → r (lexeme ++ new) = r text

/-- What takes something takes the first character, and so that stays where it is. -/
theorem Local.cons {r : List Char → Reading α} (h : Local r) {c : Char} {rest : List Char} {a : α}
    (read : (r (c :: rest)).outcome = .ok a) (taken : 0 < (r (c :: rest)).consumed) :
    ∃ front tail, rest = front ++ tail ∧ (r (c :: rest)).consumed = front.length + 1 ∧
      ∀ new, Replaces new tail → r (c :: (front ++ new)) = r (c :: rest) := by
  obtain ⟨lexeme, tail, split, length, again⟩ := h _ a read
  rw [length] at taken
  obtain ⟨c', front, rfl⟩ := List.exists_cons_of_length_pos taken
  obtain ⟨rfl, rfl⟩ := List.cons.inj split
  exact ⟨front, tail, rfl, length, again⟩

theorem Local.map {r : List Char → Reading α} (h : Local r) (f : α → β) : Local fun text => (r text).map f := by
  intro text b read
  obtain ⟨a, read, -⟩ := map_eq_ok.mp read
  obtain ⟨lexeme, tail, split, length, again⟩ := h text a read
  refine ⟨lexeme, tail, split, length, ?_⟩
  intro new replaces
  dsimp only
  rw [again new replaces]

theorem andThen_congr {r : Reading α} {f g : α → Reading β} (same : ∀ a, r.outcome = .ok a → f a = g a) :
    r.andThen f = r.andThen g := by
  unfold Reading.andThen
  split
  · rename_i a read
    rw [same a read]
  · rfl

/-- One reading and then another one behind what the first one took. -/
theorem Local.andThen {r : List Char → Reading α} {next : α → List Char → Reading β} (first : Local r)
    (second : ∀ a, Local (next a)) :
    Local fun text => (r text).andThen fun a => next a (text.drop (r text).consumed) := by
  intro text b read
  obtain ⟨a, readFirst, readSecond⟩ := andThen_eq_ok.mp read
  obtain ⟨front, behind, rfl, length, again⟩ := first text a readFirst
  rw [length, List.drop_left] at readSecond
  obtain ⟨back, tail, rfl, length', again'⟩ := second a behind b readSecond
  refine ⟨front ++ back, tail, (List.append_assoc _ _ _).symm, ?_, ?_⟩
  · simp only [Reading.andThen, readFirst, Reading.after, length, List.drop_left, length', List.length_append]
  · intro new replaces
    have sameFirst := again (back ++ new) (replaces.append back)
    rw [List.append_assoc]
    simp only [sameFirst, Reading.andThen, readFirst, length, List.drop_left, again' new replaces]

end Reading

namespace Lexeme

open Token (Content Kind)

variable {limits : Limits} {new old text rest : List Char} {c : Char}

/-! ### Words and texts -/

/-- A text is cut where a property of its characters ends. -/
theorem exists_cut (p : Char → Bool) (text : List Char) :
    ∃ front tail, text = front ++ tail ∧ (∀ c ∈ front, p c = true) ∧ ∀ c, tail.head? = some c → p c = false := by
  refine ⟨_, _, List.takeWhile_append_dropWhile.symm, fun c => List.mem_takeWhile_imp, ?_⟩
  intro c head
  have first := List.head?_dropWhile_not p text
  rw [head] at first
  exact first

theorem word_local (limits : Limits) : Reading.Local (word limits) := by
  intro text content read
  obtain ⟨name, tail, rfl, all, stop⟩ := exists_cut Text.isWordChar text
  have taken := takeWhile_append_apart all stop
  refine ⟨name, tail, rfl, ?_, ?_⟩
  · rw [word, taken] at read ⊢
    split at read
    · rename_i short
      rw [if_pos short]
    · cases read
  · intro new replaces
    rw [word, takeWhile_append_apart all (replaces.stop not_isWordChar_of_isBlank stop), word, taken]

/-- Whatever stands behind its closing quote, a text is read in the same way. -/
theorem quotedBody_local (limit room : Nat) : Reading.Local (quotedBody limit room) := by
  intro text cs read
  suffices h : ∃ lexeme tail, text = lexeme ++ tail ∧ (quotedBody limit room text).consumed = lexeme.length ∧
      ∀ new, quotedBody limit room (lexeme ++ new) = quotedBody limit room text by
    obtain ⟨lexeme, tail, split, length, again⟩ := h
    exact ⟨lexeme, tail, split, length, fun new _ => again new⟩
  fun_induction quotedBody limit room text generalizing cs with
  | case1 | case3 | case4 | case5 | case7 => cases read
  | case2 room rest => exact ⟨['"'], rest, rfl, rfl, fun new => by cases room <;> rfl⟩
  | case6 c rest d room means ih =>
    obtain ⟨ds, read, -⟩ := map_eq_ok.mp read
    obtain ⟨lexeme, tail, rfl, length, again⟩ := ih ds read
    refine ⟨'\\' :: c :: lexeme, tail, rfl, ?_, ?_⟩
    · simp only [Reading.after, Reading.map, length, List.length_cons]
      omega
    · intro new
      rw [List.cons_append, List.cons_append, quotedBody.eq_6 _ _ _ _ _ means, again]
  | case8 room c rest quote single escape ih =>
    obtain ⟨ds, read, -⟩ := map_eq_ok.mp read
    obtain ⟨lexeme, tail, rfl, length, again⟩ := ih ds read
    refine ⟨c :: lexeme, tail, rfl, ?_, ?_⟩
    · simp only [Reading.after, Reading.map, length, List.length_cons]
      omega
    · intro new
      have backslash : c ≠ '\\' := by
        intro same
        cases behind : lexeme ++ tail with
        | nil => exact single same behind
        | cons d rest => exact escape d rest same behind
      rw [List.cons_append, quotedBody.eq_8 _ _ _ _ quote (fun same _ => backslash same)
        (fun _ _ same _ => backslash same), again]

/-! ### Numbers -/

theorem digits_stop {admits : Nat → Nat → Bool} {value count : Nat}
    (stop : ∀ c, text.head? = some c → c.isDigit = false) :
    digits admits value count text = ⟨value, count, false⟩ := by
  cases text with
  | nil => rfl
  | cons c rest => simp [digits, stop c rfl]

theorem exists_digits {admits : Nat → Nat → Bool} {value count : Nat}
    (kept : (digits admits value count text).exceeded = false) :
    ∃ ds tail, text = ds ++ tail ∧ (digits admits value count text).count = count + ds.length ∧
      ∀ new, Replaces new tail → digits admits value count (ds ++ new) = digits admits value count text := by
  fun_induction digits admits value count text with
  | case1 value count =>
    refine ⟨[], [], rfl, rfl, ?_⟩
    intro new replaces
    exact digits_stop (replaces.stop not_isDigit_of_isBlank fun c head => by cases head)
  | case2 value count c rest digit next admitted ih =>
    obtain ⟨ds, tail, rfl, length, again⟩ := ih kept
    refine ⟨c :: ds, tail, rfl, ?_, ?_⟩
    · rw [length, List.length_cons]
      omega
    · intro new replaces
      rw [List.cons_append, digits, if_pos digit]
      dsimp only
      rw [if_pos admitted, again new replaces]
  | case3 => cases kept
  | case4 value count c rest other =>
    have stop : ∀ d, (c :: rest).head? = some d → d.isDigit = false := by
      rintro d ⟨⟩
      exact Bool.eq_false_iff.mpr other
    refine ⟨[], c :: rest, rfl, rfl, ?_⟩
    intro new replaces
    exact digits_stop (replaces.stop not_isDigit_of_isBlank stop)

theorem digitsReading_local (admits : Nat → Nat → Bool) (fault : LexicalFault) :
    Reading.Local fun text => (digits admits 0 0 text).reading fault := by
  intro text d read
  obtain ⟨ds, tail, split, length, again⟩ := exists_digits (Digits.exceeded_eq_false read)
  rw [Nat.zero_add] at length
  refine ⟨ds, tail, split, length, ?_⟩
  intro new replaces
  dsimp only
  rw [again new replaces]

theorem fraction_eq_none (other : text.head? ≠ some '.') : fraction limits text = ⟨.ok none, 0⟩ := by
  unfold fraction
  split
  · exact absurd rfl other
  · rfl

theorem fraction_local (limits : Limits) : Reading.Local (fraction limits) := by
  intro text f read
  by_cases point : text.head? = some '.'
  · obtain ⟨rest, rfl⟩ := List.head?_eq_some_iff.mp point
    obtain ⟨d, read, -⟩ := map_eq_ok.mp read
    obtain ⟨ds, tail, rfl, length, again⟩ := digitsReading_local _ _ rest d read
    refine ⟨'.' :: ds, tail, rfl, ?_, ?_⟩
    · rw [List.length_cons, Nat.add_comm, ← length]
      rfl
    · intro new replaces
      have again := again new replaces
      dsimp only at again
      simp only [List.cons_append, fraction, again]
  · rw [fraction_eq_none point]
    refine ⟨[], text, rfl, rfl, ?_⟩
    intro new replaces
    exact fraction_eq_none (replaces.head?_ne (by decide) point)

theorem exponentDigits_stop (stop : ∀ c, text.head? = some c → c.isDigit = false) :
    exponentDigits limits text = ⟨.ok none, 0⟩ := by
  cases text with
  | nil => rfl
  | cons c rest => simp [exponentDigits, stop c rfl]

theorem exponentDigits_cons (digit : c.isDigit = true) (rest : List Char) :
    exponentDigits limits (c :: rest) =
      ((digits (fun _ value => value ≤ limits.exponent.toInt) 0 0 (c :: rest)).reading
        (.exponentTooLarge limits.exponent)).map fun d => some d.value :=
  if_pos digit

theorem exponentDigits_local (limits : Limits) : Reading.Local (exponentDigits limits) := by
  intro text n read
  by_cases digit : ∃ c, text.head? = some c ∧ c.isDigit = true
  · obtain ⟨c, head, digit⟩ := digit
    obtain ⟨rest, rfl⟩ := List.head?_eq_some_iff.mp head
    rw [exponentDigits_cons digit] at read ⊢
    obtain ⟨d, found, -⟩ := map_eq_ok.mp read
    have taken := digits_count_pos digit (Digits.exceeded_eq_false found)
    obtain ⟨ds, tail, rfl, length, again⟩ := ((digitsReading_local _ _).map fun d => some d.value).cons read taken
    refine ⟨c :: ds, tail, rfl, length, ?_⟩
    intro new replaces
    rw [List.cons_append, exponentDigits_cons digit]
    exact again new replaces
  · have stop : ∀ c, text.head? = some c → c.isDigit = false := by
      intro c head
      rw [Bool.eq_false_iff]
      exact fun isDigit => digit ⟨c, head, isDigit⟩
    rw [exponentDigits_stop stop]
    refine ⟨[], text, rfl, rfl, ?_⟩
    intro new replaces
    exact exponentDigits_stop (replaces.stop not_isDigit_of_isBlank stop)

theorem exponent_local (limits : Limits) : Reading.Local (exponent limits) := by
  intro text e read
  by_cases letter : text.head? = some 'e'
  · obtain ⟨rest, rfl⟩ := List.head?_eq_some_iff.mp letter
    by_cases sign : rest.head? = some '-'
    · obtain ⟨rest, rfl⟩ := List.head?_eq_some_iff.mp sign
      obtain ⟨n, read, -⟩ := map_eq_ok.mp read
      obtain ⟨ds, tail, rfl, length, again⟩ := exponentDigits_local limits rest n read
      refine ⟨'e' :: '-' :: ds, tail, rfl, ?_, ?_⟩
      · simp only [exponent, Reading.after, Reading.map, length, List.length_cons]
        omega
      · intro new replaces
        simp only [List.cons_append, exponent, again new replaces]
    · have unsigned (rest : List Char) (other : rest.head? ≠ some '-') := exponent.eq_2 limits rest (by grind)
      rw [unsigned rest sign] at read ⊢
      obtain ⟨n, read, -⟩ := map_eq_ok.mp read
      obtain ⟨ds, tail, rfl, length, again⟩ := exponentDigits_local limits rest n read
      refine ⟨'e' :: ds, tail, rfl, ?_, ?_⟩
      · simp only [Reading.after, Reading.map, length, List.length_cons]
        omega
      · intro new replaces
        rw [List.cons_append, unsigned _ ((replaces.append ds).head?_ne (by decide) sign), again new replaces]
  · have missing (text : List Char) (other : text.head? ≠ some 'e') : exponent limits text = ⟨.ok .missing, 0⟩ := by
      unfold exponent
      split
      · exact absurd rfl other
      · exact absurd rfl other
      · rfl
    rw [missing text letter]
    refine ⟨[], text, rfl, rfl, ?_⟩
    intro new replaces
    exact missing new (replaces.head?_ne (by decide) letter)

theorem whole_consumed {w : Digits} (read : (whole limits text).outcome = .ok w) :
    (whole limits text).consumed = w.count := by
  rw [Digits.eq_of_reading read]
  rfl

theorem fraction_consumed {f : Option Digits} (read : (fraction limits text).outcome = .ok f) :
    (fraction limits text).consumed = f.elim 0 fun d => 1 + d.count := by
  by_cases point : text.head? = some '.'
  · obtain ⟨rest, rfl⟩ := List.head?_eq_some_iff.mp point
    obtain ⟨d, found, rfl⟩ := map_eq_ok.mp read
    rw [Digits.eq_of_reading found]
    rfl
  · rw [fraction_eq_none point] at read ⊢
    cases read
    rfl

/-- The parts of a number, each behind what the one before it has taken. -/
theorem numeral_eq (limits : Limits) : numeral limits = fun text => (whole limits text).andThen fun w =>
    (fun text => (fraction limits text).andThen fun f =>
      (exponent limits (text.drop (fraction limits text).consumed)).map (numeralContent w f))
      (text.drop (whole limits text).consumed) := by
  funext text
  apply Reading.andThen_congr
  intro w read
  rw [whole_consumed read]
  apply Reading.andThen_congr
  intro f read
  rw [fraction_consumed read]
  cases f <;> rfl

theorem numeral_local (limits : Limits) : Reading.Local (numeral limits) := by
  have parts (w : Digits) : Reading.Local fun text => (fraction limits text).andThen fun f =>
      (exponent limits (text.drop (fraction limits text).consumed)).map (numeralContent w f) :=
    (fraction_local limits).andThen fun f => (exponent_local limits).map (numeralContent w f)
  rw [numeral_eq]
  exact Reading.Local.andThen (digitsReading_local _ _) parts

/-- Behind a token of the given kind `old` may be replaced by `new`. A comment that ends would go on over other blanks
than a line break, and a zero is cut off by the digit behind it only. -/
def Spares (kind : Kind) (new old : List Char) : Prop :=
  new.head? = old.head? ∨ Detached new ∧ kind ≠ .comment ∧
    (kind = .invalid → ∀ c, old.head? = some c → c.isDigit = false)

theorem Spares.replaces {kind : Kind} (h : Spares kind new old) : Replaces new old :=
  h.imp_right And.left

theorem number_invalid {d : Char} (digit : d.isDigit = true) (rest : List Char) :
    number limits ('0' :: d :: rest) = ⟨.ok ⟨.invalid, some (.text "0")⟩, 1⟩ :=
  if_pos digit

theorem number_eq_numeral (only : c = '0' → ∀ d, rest.head? = some d → d.isDigit = false) :
    number limits (c :: rest) = numeral limits (c :: rest) := by
  unfold number
  split
  · rename_i d rest same
    obtain ⟨rfl, rfl⟩ := List.cons.inj same
    rw [if_neg (by rw [only rfl d rfl]; decide)]
  · rfl

theorem number_local (digit : c.isDigit = true) {content : Content}
    (read : (number limits (c :: rest)).outcome = .ok content) :
    ∃ front tail, rest = front ++ tail ∧ (number limits (c :: rest)).consumed = front.length + 1 ∧
      ∀ new, Spares content.kind new tail → number limits (c :: (front ++ new)) = number limits (c :: rest) := by
  by_cases cut : c = '0' ∧ ∃ d, rest.head? = some d ∧ d.isDigit = true
  · obtain ⟨rfl, d, head, second⟩ := cut
    obtain ⟨rest, rfl⟩ := List.head?_eq_some_iff.mp head
    rw [number_invalid second] at read ⊢
    cases read
    refine ⟨[], d :: rest, rfl, rfl, ?_⟩
    rintro new (same | ⟨-, -, alone⟩)
    · obtain ⟨rest, rfl⟩ := List.head?_eq_some_iff.mp same
      exact number_invalid second rest
    · rw [alone rfl d rfl] at second
      cases second
  · have only : c = '0' → ∀ d, rest.head? = some d → d.isDigit = false := by
      intro zero d head
      rw [Bool.eq_false_iff]
      exact fun second => cut ⟨zero, d, head, second⟩
    rw [number_eq_numeral only] at read ⊢
    obtain ⟨front, tail, rfl, length, again⟩ := (numeral_local limits).cons read (numeral_consumed_pos digit read)
    refine ⟨front, tail, rfl, length, ?_⟩
    intro new spares
    have only (zero : c = '0') := (spares.replaces.append front).stop not_isDigit_of_isBlank (only zero)
    rw [number_eq_numeral only, again new spares.replaces]

/-! ### Symbols -/

theorem operator_short {next next' : Option Char} (one : (operator c next).consumed = 1)
    (other : ∀ d, isBlank d = false → next ≠ some d → next' ≠ some d) : operator c next' = operator c next := by
  unfold operator at one ⊢
  dsimp only at one ⊢
  split at one <;> try rfl
  all_goals
    split at one
    · cases one
    · rename_i differs
      rw [if_neg differs, if_neg (other _ (by decide) differs)]

theorem operator_consumed (c : Char) (next : Option Char) :
    (operator c next).consumed = 1 ∨ (operator c next).consumed = 2 ∧ ∃ d, next = some d := by
  unfold operator
  dsimp only
  split <;> try exact .inl rfl
  all_goals
    split
    · rename_i same
      exact .inr ⟨rfl, _, same⟩
    · exact .inl rfl

theorem operator_local (c : Char) (rest : List Char) :
    ∃ front tail, rest = front ++ tail ∧ (operator c rest.head?).consumed = front.length + 1 ∧
      ∀ new, Replaces new tail → operator c (front ++ new).head? = operator c rest.head? := by
  obtain one | ⟨two, d, head⟩ := operator_consumed c rest.head?
  · refine ⟨[], rest, rfl, one, ?_⟩
    intro new replaces
    exact operator_short one fun d visible other => replaces.head?_ne visible other
  · obtain ⟨rest, rfl⟩ := List.head?_eq_some_iff.mp head
    exact ⟨[d], rest, rfl, two, fun _ _ => rfl⟩

/-! ### Comments -/

/-- A comment is read again in front of any line break, and at the end. -/
theorem comment_local {content : Content} (read : (comment limits text).outcome = .ok content) :
    content.kind = .comment ∧ ∃ body tail, text = body ++ tail ∧ (comment limits text).consumed = body.length ∧
      (∀ c ∈ body, isLineBreak c = false) ∧ (∀ c, tail.head? = some c → isLineBreak c = true) ∧
      ∀ new, (∀ c, new.head? = some c → isLineBreak c = true) →
        comment limits (body ++ new) = comment limits text := by
  obtain ⟨body, tail, rfl, all, stop⟩ := exists_cut (!isLineBreak ·) text
  have taken (new : List Char) (ends : ∀ c, new.head? = some c → isLineBreak c = true) :
      (body ++ new).takeWhile (!isLineBreak ·) = body :=
    takeWhile_append_apart all fun c head => by rw [ends c head]; rfl
  have ends : ∀ c, tail.head? = some c → isLineBreak c = true :=
    fun c head => Bool.not_eq_eq_eq_not.mp (stop c head)
  have kept : content.kind = .comment ∧ (comment limits (body ++ tail)).consumed = body.length := by
    rw [comment, taken tail ends] at read ⊢
    split at read
    · rename_i short
      cases read
      rw [if_pos short]
      exact ⟨rfl, rfl⟩
    · cases read
  refine ⟨kept.1, body, tail, rfl, kept.2, fun c mem => Bool.not_eq_eq_eq_not.mp (all c mem), ends, ?_⟩
  intro new ends'
  rw [comment, taken new ends', comment, taken tail ends]

/-! ### Tokens -/

theorem read_operator (slash : c ≠ '/') (quote : c ≠ '"') (letter : ¬ Text.isAlphabetic c = true)
    (digit : ¬ c.isDigit = true) (rest : List Char) : read limits (c :: rest) = operator c rest.head? := by
  rw [read.eq_5 _ _ _ (fun _ same _ => slash same) (fun same => slash same) (fun same => quote same), if_neg letter,
    if_neg digit]

/-- A token in front of a text takes its own characters, and it is read from them again if what stands behind them is
replaced by what spares it. -/
theorem read_local {content : Content} (h : (read limits (c :: rest)).outcome = .ok content) :
    ∃ front tail, rest = front ++ tail ∧ (read limits (c :: rest)).consumed = front.length + 1 ∧
      ∀ new, Spares content.kind new tail → read limits (c :: (front ++ new)) = read limits (c :: rest) := by
  by_cases slash : c = '/'
  · subst slash
    by_cases second : rest.head? = some '/'
    · obtain ⟨rest, rfl⟩ := List.head?_eq_some_iff.mp second
      obtain ⟨kind, body, tail, rfl, length, -, stop, again⟩ := comment_local h
      refine ⟨'/' :: body, tail, rfl, ?_, ?_⟩
      · simp only [read, Reading.after, length, List.length_cons]
        omega
      · rintro new (same | ⟨-, other, -⟩)
        · have again := again new (same ▸ stop)
          simp only [List.cons_append, read, again]
        · exact absurd kind other
    · have division (rest : List Char) (other : rest.head? ≠ some '/') :
          read limits ('/' :: rest) = ⟨.ok (plain .slash), 1⟩ := read.eq_3 _ _ (by grind)
      rw [division rest second]
      refine ⟨[], rest, rfl, rfl, ?_⟩
      intro new spares
      exact division new (spares.replaces.head?_ne (by decide) second)
  by_cases quote : c = '"'
  · subst quote
    obtain ⟨cs, found, -⟩ := map_eq_ok.mp h
    obtain ⟨body, tail, rfl, length, again⟩ := quotedBody_local _ _ rest cs found
    refine ⟨body, tail, rfl, ?_, ?_⟩
    · rw [Nat.add_comm, ← length]
      rfl
    · intro new spares
      simp only [read, quoted, again new spares.replaces]
  by_cases letter : Text.isAlphabetic c = true
  · rw [read_letter letter] at h ⊢
    obtain ⟨front, tail, split, length, again⟩ := (word_local limits).cons h (word_consumed_pos letter h)
    refine ⟨front, tail, split, length, ?_⟩
    intro new spares
    rw [read_letter letter]
    exact again new spares.replaces
  by_cases digit : c.isDigit = true
  · rw [read_digit digit] at h ⊢
    obtain ⟨front, tail, split, length, again⟩ := number_local digit h
    refine ⟨front, tail, split, length, ?_⟩
    intro new spares
    rw [read_digit digit]
    exact again new spares
  · rw [read_operator slash quote letter digit]
    obtain ⟨front, tail, split, length, again⟩ := operator_local c rest
    refine ⟨front, tail, split, length, ?_⟩
    intro new spares
    rw [read_operator slash quote letter digit]
    exact again new spares.replaces

theorem read_spared {content : Content} {front tail : List Char}
    (h : read limits (c :: (front ++ tail)) = ⟨.ok content, front.length + 1⟩) (spares : Spares content.kind new tail) :
    read limits (c :: (front ++ new)) = ⟨.ok content, front.length + 1⟩ := by
  obtain ⟨front', tail', split, length, again⟩ := read_local (congrArg Reading.outcome h)
  have same : front.length = front'.length := Nat.succ.inj ((congrArg Reading.consumed h).symm.trans length)
  obtain ⟨rfl, rfl⟩ := List.append_inj split same
  rw [again new spares, h]

/-- The kinds that are neither a comment's nor those of an integer or of an invalid number. -/
def isOther : Kind → Bool
  | .comment | .intLiteral | .invalid => false
  | _ => true

theorem word_isOther {content : Content} (h : (word limits text).outcome = .ok content) :
    isOther content.kind = true := by
  have reserved : ∀ p ∈ Kind.reserved, isOther p.2 = true := by decide
  unfold word at h
  dsimp only at h
  split at h <;> cases h
  obtain ⟨-, same⟩ | mem := ofWord_eq_or (String.ofList (text.takeWhile Text.isWordChar))
  · rw [same]
    rfl
  · exact reserved _ mem

theorem operator_isOther {next : Option Char} {content : Content} (h : (operator c next).outcome = .ok content) :
    isOther content.kind = true := by
  unfold operator at h
  dsimp only at h
  split at h <;> (try split at h) <;> cases h <;> rfl

/-- Only two slashes begin a comment, and only a digit begins a number. -/
theorem read_cases {content : Content} (h : (read limits text).outcome = .ok content) :
    (content.kind = .comment ∧ ∃ rest, text = '/' :: '/' :: rest) ∨
      (∃ c rest, text = c :: rest ∧ c.isDigit = true ∧ (number limits text).outcome = .ok content) ∨
      isOther content.kind = true := by
  revert h
  fun_cases read limits text with
  | case1 | case3 =>
    rintro ⟨⟩
    exact .inr (.inr rfl)
  | case2 rest => exact fun h => .inl ⟨(comment_local h).1, rest, rfl⟩
  | case4 =>
    intro h
    obtain ⟨cs, -, rfl⟩ := map_eq_ok.mp h
    exact .inr (.inr rfl)
  | case5 => exact fun h => .inr (.inr (word_isOther h))
  | case6 c rest _ _ _ _ digit => exact fun h => .inr (.inl ⟨c, rest, rfl, digit, h⟩)
  | case7 => exact fun h => .inr (.inr (operator_isOther h))

theorem number_ne_comment {content : Content} (h : (number limits text).outcome = .ok content) :
    content.kind ≠ .comment := by
  have numerals {text : List Char} (h : (numeral limits text).outcome = .ok content) : content.kind ≠ .comment := by
    obtain ⟨w, -, h⟩ := Reading.andThen_eq_ok.mp h
    obtain ⟨f, -, h⟩ := Reading.andThen_eq_ok.mp h
    obtain ⟨e, -, rfl⟩ := map_eq_ok.mp h
    cases e <;> cases f <;> exact nofun
  unfold number at h
  split at h
  · split at h
    · cases h
      exact nofun
    · exact numerals h
  · exact numerals h

theorem head_of_comment {content : Content} (h : (read limits text).outcome = .ok content)
    (kind : content.kind = .comment) : ∃ rest, text = '/' :: '/' :: rest := by
  obtain ⟨-, head⟩ | ⟨_, _, -, -, number⟩ | other := read_cases h
  · exact head
  · exact absurd kind (number_ne_comment number)
  · rw [kind] at other
    cases other

/-- A comment has no line break in it, and if something stands behind it then that is one. -/
theorem exists_comment {content : Content} {front tail : List Char}
    (h : read limits (c :: (front ++ tail)) = ⟨.ok content, front.length + 1⟩) (kind : content.kind = .comment) :
    (∀ d ∈ c :: front, isLineBreak d = false) ∧ ∀ d, tail.head? = some d → isLineBreak d = true := by
  obtain ⟨rest, whole⟩ := head_of_comment (congrArg Reading.outcome h) kind
  obtain ⟨rfl, split⟩ := List.cons.inj whole
  rw [split] at h
  obtain ⟨-, body, tail', rfl, length, inside, stop, -⟩ := comment_local (congrArg Reading.outcome h)
  have consumed : 2 + body.length = front.length + 1 := length ▸ congrArg Reading.consumed h
  obtain ⟨rfl, rfl⟩ := List.append_inj (split.trans (List.cons_append ..).symm) (by simp only [List.length_cons]; omega)
  refine ⟨?_, stop⟩
  simp only [List.forall_mem_cons]
  exact ⟨by decide, by decide, inside⟩

end Lexeme

end Mensura
