import Mensura.Proofs.Token.Legible
import Mensura.Text.Quoted

/-!
How tokens are spelled. Main statements: words, numbers, quoted texts and symbols are read back from their spelling,
if what stands behind it does not continue them.
-/

namespace Mensura

/-- A character that can be shown, of ASCII, or one of the two controls that have a short escape. -/
def Text.isPlain (c : Char) : Bool := (0x20 ≤ c.toNat && c.toNat < 0x7f) || c == '\n' || c == '\t'

/-- How a kind of token is written that has one spelling and is no word. -/
def Token.Kind.symbol : Token.Kind → List Char
  | .plus => ['+']
  | .minus => ['-']
  | .arrow => ['-', '>']
  | .star => ['*']
  | .slash => ['/']
  | .caret => ['^']
  | .greater => ['>']
  | .greaterEqual => ['>', '=']
  | .less => ['<']
  | .lessEqual => ['<', '=']
  | .assign => ['=']
  | .equal => ['=', '=']
  | .not => ['!']
  | .notEqual => ['!', '=']
  | .or => ['|', '|']
  | .and => ['&', '&']
  | .leftParen => ['(']
  | .rightParen => [')']
  | .leftBracket => ['[']
  | .rightBracket => [']']
  | .leftBrace => ['\x7b']
  | .rightBrace => ['\x7d']
  | .comma => [',']
  | .colon => [':']
  | _ => []

/-- Whether a longer symbol, or a comment, begins in the same way. -/
def Token.Kind.goesOn : Token.Kind → Bool
  | .minus | .slash | .greater | .less | .assign | .not => true
  | _ => false

namespace Lexeme

open Token (Content Kind)

variable {limits : Limits} {tail : List Char}

/-- The text continues neither a word nor a number. -/
def Apart (text : List Char) : Prop := ∀ c, text.head? = some c → Text.isWordChar c = false ∧ c ≠ '.'

theorem Apart.cons {c : Char} (h : Text.isWordChar c = false ∧ c ≠ '.') : Apart (c :: tail) := by
  rintro d ⟨⟩
  exact h

/-! ### Words -/

theorem read_letter {c : Char} (letter : Text.isAlphabetic c = true) (rest : List Char) :
    read limits (c :: rest) = word limits (c :: rest) := by
  have slash : c ≠ '/' := by rintro rfl; exact absurd letter (by decide)
  have quote : c ≠ '"' := by rintro rfl; exact absurd letter (by decide)
  rw [read.eq_5 _ _ _ (fun _ same _ => slash same) (fun same => slash same) (fun same => quote same), if_pos letter]

theorem takeWhile_append_apart {p : Char → Bool} {cs : List Char} (all : ∀ c ∈ cs, p c = true)
    (stop : ∀ c, tail.head? = some c → p c = false) : (cs ++ tail).takeWhile p = cs := by
  rw [List.takeWhile_append_of_pos all]
  cases tail with
  | nil => rw [List.takeWhile_nil, List.append_nil]
  | cons d tail => rw [List.takeWhile_cons_of_neg (by rw [stop d rfl]; decide), List.append_nil]

theorem read_word {name : String} (isWord : Text.IsWord name) (short : name.length ≤ limits.identifier)
    (apart : Apart tail) : read limits (name.toList ++ tail) = ⟨.ok (ofWord name), name.toList.length⟩ := by
  obtain ⟨c, rest, split, letter⟩ := isWord.begins
  have taken : (name.toList ++ tail).takeWhile Text.isWordChar = name.toList :=
    takeWhile_append_apart isWord.goesOn fun c here => (apart c here).1
  have same : read limits (name.toList ++ tail) = word limits (name.toList ++ tail) := by
    rw [split]
    exact read_letter letter (rest ++ tail)
  rw [same, word, taken, if_pos (by rwa [String.length_toList]), String.ofList_toList]

/-! ### Numbers -/

theorem le_ofDigitChars (value : Nat) (ds : List Char) : value ≤ Nat.ofDigitChars 10 ds value := by
  induction ds generalizing value with
  | nil => rw [Nat.ofDigitChars_nil]
  | cons c ds ih =>
    rw [Nat.ofDigitChars_cons]
    exact Nat.le_trans (by omega) (ih _)

/-- Digits are read to their end if the number that they make up is admitted, as no part of it is larger. -/
theorem digits_append {limit : Int} {ds : List Char} (all : ∀ c ∈ ds, c.isDigit = true)
    (stop : ∀ c, tail.head? = some c → c.isDigit = false) (value count : Nat)
    (fits : (Nat.ofDigitChars 10 ds value : Nat) ≤ limit) :
    digits (fun _ value => value ≤ limit) value count (ds ++ tail) =
      ⟨Nat.ofDigitChars 10 ds value, count + ds.length, false⟩ := by
  induction ds generalizing value count with
  | nil =>
    cases tail with
    | nil => rfl
    | cons c tail => simp [digits, stop c rfl]
  | cons c ds ih =>
    have part := le_ofDigitChars (10 * value + Numeral.digitValue c) ds
    rw [Nat.ofDigitChars_cons] at fits ⊢
    change (Nat.ofDigitChars 10 ds (10 * value + Numeral.digitValue c) : Int) ≤ limit at fits
    rw [List.cons_append, digits, if_pos (all c List.mem_cons_self)]
    dsimp only
    rw [if_pos (by rw [decide_eq_true_eq]; omega), ih (fun d mem => all d (List.mem_cons_of_mem c mem)) _ _ fits,
      List.length_cons, Nat.add_assoc, Nat.add_comm 1]
    rfl

theorem natural_isDigit {n : Nat} : ∀ c ∈ Numeral.natural n, c.isDigit = true :=
  fun _ => Nat.isDigit_of_mem_toDigits (by decide) (by decide)

theorem natural_begins (n : Nat) : ∃ c rest, Numeral.natural n = c :: rest ∧ c.isDigit = true := by
  cases split : Numeral.natural n with
  | nil => exact absurd split Nat.toDigits_ne_nil
  | cons c rest => exact ⟨c, rest, rfl, natural_isDigit c (by rw [split]; exact List.mem_cons_self)⟩

/-- A number begins with a zero only if it is zero. -/
theorem natural_eq_cons (n : Nat) :
    Numeral.natural n = ['0'] ∨ ∃ c ds, Numeral.natural n = c :: ds ∧ c ≠ '0' := by
  induction n using Nat.strongRecOn with
  | ind n ih =>
    rw [Numeral.natural, Nat.toDigits_eq_if (by decide)]
    split
    · rename_i small
      have apart : ∀ d < 10, d = 0 ∨ Nat.digitChar d ≠ '0' := by decide
      obtain rfl | other := apart n small
      · exact .inl rfl
      · exact .inr ⟨_, [], rfl, other⟩
    · obtain zero | ⟨c, ds, split, other⟩ := ih (n / 10) (by omega)
      · have value : Nat.ofDigitChars 10 (Nat.toDigits 10 (n / 10)) 0 = n / 10 := Nat.ofDigitChars_ten_toDigits
        rw [← Numeral.natural, zero] at value
        have : n / 10 = 0 := value.symm
        omega
      · exact .inr ⟨c, ds ++ _, by rw [← Numeral.natural, split]; rfl, other⟩

theorem isDigit_iff {c : Char} : c.isDigit = true ↔ 48 ≤ c.toNat ∧ c.toNat ≤ 57 := by
  simp only [Char.isDigit, Bool.and_eq_true, decide_eq_true_eq, ge_iff_le, UInt32.le_iff_toNat_le]
  rfl

theorem isWordChar_of_isDigit {c : Char} (digit : c.isDigit = true) : Text.isWordChar c = true := by
  have small : c.toNat < 0x80 := by have := (isDigit_iff.mp digit).2; omega
  simp [Text.isWordChar, Text.isNumeric, small, digit]

theorem not_isAlphabetic_of_isDigit {c : Char} (digit : c.isDigit = true) : Text.isAlphabetic c = false := by
  obtain ⟨-, last⟩ := isDigit_iff.mp digit
  rw [Text.isAlphabetic, if_pos (by omega), Bool.eq_false_iff]
  intro letter
  obtain upper | lower := (Bool.or_eq_true _ _).mp letter
  · have first : 65 ≤ c.toNat := UInt32.le_iff_toNat_le.mp (of_decide_eq_true upper).1
    omega
  · have first : 97 ≤ c.toNat := UInt32.le_iff_toNat_le.mp (of_decide_eq_true ((Bool.and_eq_true _ _).mp lower).1)
    omega

theorem Apart.not_isDigit (apart : Apart tail) {c : Char} (here : tail.head? = some c) : c.isDigit = false := by
  rw [Bool.eq_false_iff]
  intro digit
  have := (apart c here).1
  rw [isWordChar_of_isDigit digit] at this
  cases this

theorem numeral_natural {n : Nat} (fits : (n : Int) ≤ limits.integer.toInt) (apart : Apart tail) :
    numeral limits (Numeral.natural n ++ tail) =
      ⟨.ok ⟨.intLiteral, some (.int (Int64.ofNat n))⟩, (Numeral.natural n).length⟩ := by
  have value : Nat.ofDigitChars 10 (Numeral.natural n) 0 = n := Nat.ofDigitChars_ten_toDigits
  have whole : whole limits (Numeral.natural n ++ tail) =
      ⟨.ok ⟨n, (Numeral.natural n).length, false⟩, (Numeral.natural n).length⟩ := by
    rw [whole, digits_append natural_isDigit (fun _ => apart.not_isDigit) 0 0 (by rwa [value]), value, Nat.zero_add]
    rfl
  have noPoint : fraction limits tail = ⟨.ok none, 0⟩ := by
    unfold fraction
    split
    · exact absurd rfl (apart '.' rfl).2
    · rfl
  have noExponent : exponent limits tail = ⟨.ok .missing, 0⟩ := by
    unfold exponent
    split
    · exact absurd (apart 'e' rfl).1 (by decide)
    · exact absurd (apart 'e' rfl).1 (by decide)
    · rfl
  rw [numeral, whole]
  simp only [Reading.andThen, List.drop_left, noPoint, noExponent]
  rfl

theorem read_digit {c : Char} (digit : c.isDigit = true) (rest : List Char) :
    read limits (c :: rest) = number limits (c :: rest) := by
  have slash : c ≠ '/' := by rintro rfl; exact absurd digit (by decide)
  have quote : c ≠ '"' := by rintro rfl; exact absurd digit (by decide)
  rw [read.eq_5 _ _ _ (fun _ same _ => slash same) (fun same => slash same) (fun same => quote same),
    if_neg (by rw [not_isAlphabetic_of_isDigit digit]; decide), if_pos digit]

/-- A number has no zero in front of it that would make it invalid. -/
theorem number_natural (n : Nat) (apart : Apart tail) :
    number limits (Numeral.natural n ++ tail) = numeral limits (Numeral.natural n ++ tail) := by
  obtain zero | ⟨c, ds, split, other⟩ := natural_eq_cons n
  · rw [zero]
    cases tail with
    | nil => rfl
    | cons d tail => exact if_neg (by rw [apart.not_isDigit rfl]; decide)
  · rw [split]
    exact number.eq_2 _ _ (fun _ _ same => other (List.cons.inj same).1)

theorem read_natural {n : Nat} (fits : (n : Int) ≤ limits.integer.toInt) (apart : Apart tail) :
    read limits (Numeral.natural n ++ tail) =
      ⟨.ok ⟨.intLiteral, some (.int (Int64.ofNat n))⟩, (Numeral.natural n).length⟩ := by
  rw [← numeral_natural fits apart, ← number_natural n apart]
  obtain ⟨c, ds, split, digit⟩ := natural_begins n
  rw [split]
  exact read_digit digit (ds ++ tail)

/-! ### Quoted texts -/

theorem quotedChar_of_isPlain {c : Char} (plain : Text.isPlain c = true) :
    (∃ d, Text.quotedChar c = ['\\', d] ∧ escaped? d = some c) ∨
      (Text.quotedChar c = [c] ∧ c ≠ '"' ∧ c ≠ '\\') := by
  by_cases tab : c = '\t'
  · exact .inl ⟨'t', by rw [tab]; rfl, by rw [tab]; rfl⟩
  by_cases newline : c = '\n'
  · exact .inl ⟨'n', by rw [newline]; rfl, by rw [newline]; rfl⟩
  by_cases quote : c = '"'
  · exact .inl ⟨'"', by rw [quote]; rfl, by rw [quote]; rfl⟩
  by_cases backslash : c = '\\'
  · exact .inl ⟨'\\', by rw [backslash]; rfl, by rw [backslash]; rfl⟩
  refine .inr ⟨?_, quote, backslash⟩
  simp only [Text.isPlain, Bool.or_eq_true, beq_iff_eq, tab, newline, or_false, Bool.and_eq_true,
    decide_eq_true_eq] at plain
  have zero : c ≠ '\x00' := by rintro rfl; exact absurd plain.1 (by decide)
  have carriage : c ≠ '\r' := by rintro rfl; exact absurd plain.1 (by decide)
  have shown : (Text.isExtending c || !Text.isPrintable c) = false := by
    have small : c.toNat < 0x80 := by omega
    have large : ¬ 0x80 ≤ c.toNat := by omega
    simp [Text.isExtending, Text.isPrintable, small, large, plain.1, plain.2]
  simp [Text.quotedChar, zero, tab, newline, carriage, quote, backslash, shown]

/-- The characters between two quotes and what they stand for. -/
inductive Decodes : List Char → List Char → Prop where
  | nil : Decodes [] []
  | plain {c : Char} {raw cs : List Char} (quote : c ≠ '"') (backslash : c ≠ '\\') (others : Decodes raw cs) :
      Decodes (c :: raw) (c :: cs)
  | escape {c d : Char} {raw cs : List Char} (means : escaped? c = some d) (others : Decodes raw cs) :
      Decodes ('\\' :: c :: raw) (d :: cs)

theorem decodes_quotedChar {cs : List Char} (plain : ∀ c ∈ cs, Text.isPlain c = true) :
    Decodes (cs.flatMap Text.quotedChar) cs := by
  induction cs with
  | nil => exact .nil
  | cons c cs ih =>
    have others := ih fun d mem => plain d (List.mem_cons_of_mem c mem)
    rw [List.flatMap_cons]
    obtain ⟨d, escape, means⟩ | ⟨same, quote, backslash⟩ := quotedChar_of_isPlain (plain c List.mem_cons_self)
    · rw [escape]
      exact .escape means others
    · rw [same]
      exact .plain quote backslash others

/-- A text is read up to its closing quote, if it is no longer than there is room for. -/
theorem quotedBody_kept {limit room : Nat} {raw cs : List Char} (h : Decodes raw cs) (fits : cs.length ≤ room) :
    quotedBody limit room (raw ++ '"' :: tail) = ⟨.ok cs, raw.length + 1⟩ := by
  induction h generalizing room with
  | nil => cases room <;> rfl
  | @plain c raw cs quote backslash others ih =>
    obtain ⟨room, rfl⟩ := Nat.exists_eq_add_one.mpr (Nat.zero_lt_of_lt fits)
    rw [List.cons_append, quotedBody.eq_8 _ _ _ _ quote (fun same _ => backslash same)
      (fun _ _ same _ => backslash same), ih (Nat.le_of_succ_le_succ fits)]
    exact congrArg (Reading.mk _) (Nat.add_comm 1 _)
  | @escape c d raw cs means others ih =>
    obtain ⟨room, rfl⟩ := Nat.exists_eq_add_one.mpr (Nat.zero_lt_of_lt fits)
    rw [List.cons_append, List.cons_append, quotedBody.eq_6 _ _ _ _ _ means, ih (Nat.le_of_succ_le_succ fits)]
    exact congrArg (Reading.mk _) (Nat.add_comm 2 _)

theorem read_quoted {text : String} (plain : ∀ c ∈ text.toList, Text.isPlain c = true)
    (short : text.length ≤ limits.text) :
    read limits ((Text.quoted text).toList ++ tail) =
      ⟨.ok ⟨.stringLiteral, some (.text text)⟩, (Text.quoted text).toList.length⟩ := by
  have body : quotedBody limits.text limits.text (text.toList.flatMap Text.quotedChar ++ '"' :: tail) =
      ⟨.ok text.toList, (text.toList.flatMap Text.quotedChar).length + 1⟩ :=
    quotedBody_kept (decodes_quotedChar plain) (by rwa [String.length_toList])
  have split : (Text.quoted text).toList = '"' :: (text.toList.flatMap Text.quotedChar ++ ['"']) :=
    String.toList_ofList
  rw [split, List.cons_append, List.append_assoc]
  change (quoted limits (_ ++ '"' :: tail)).after 1 = _
  rw [quoted, body]
  simp only [Reading.map, Reading.after, Except.map, String.ofList_toList, List.length_cons, List.length_append,
    List.length_nil]
  exact congrArg (Reading.mk _) (by omega)

/-! ### Symbols -/

/-- The text continues no symbol. -/
def Loose (text : List Char) : Prop := ∀ c, text.head? = some c → c ≠ '=' ∧ c ≠ '>' ∧ c ≠ '/'

theorem Loose.cons {c : Char} (h : c ≠ '=' ∧ c ≠ '>' ∧ c ≠ '/') : Loose (c :: tail) := by
  rintro d ⟨⟩
  exact h

theorem read_symbol {kind : Kind} (isSymbol : kind.symbol ≠ []) (loose : kind.goesOn = true → Loose tail) :
    read limits (kind.symbol ++ tail) = ⟨.ok (plain kind), kind.symbol.length⟩ := by
  have equals (loose : Loose tail) : tail.head? ≠ some '=' := fun here => (loose '=' here).1 rfl
  have points (loose : Loose tail) : tail.head? ≠ some '>' := fun here => (loose '>' here).2.1 rfl
  cases kind with
  | slash =>
    cases tail with
    | nil => rfl
    | cons c tail =>
      have other := (loose rfl c rfl).2.2
      exact read.eq_3 _ _ (fun _ same => other (List.cons.inj same).1)
  | minus => exact if_neg (points (loose rfl))
  | greater | less | assign | not => exact if_neg (equals (loose rfl))
  | _ => first | rfl | exact absurd rfl isSymbol

end Lexeme

end Mensura
