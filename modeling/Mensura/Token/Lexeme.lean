import Mensura.Text.Letters
import Mensura.Token.Basic
import Mensura.Token.Fault
import Mensura.Token.Limits

/-!
Reading one token at the front of a text. What is read depends on the characters only, never on where they
stand: a reading gives a token's content or a fault, and how many characters it took. A token takes at least
one character, unless the text is at its end. A fault takes the characters before the one that caused it.
-/

namespace Mensura

structure Reading (α : Type) where
  outcome : Except LexicalFault α
  consumed : Nat

namespace Reading

variable {α β : Type}

/-- Counts `n` characters that were read before. -/
def after (n : Nat) (r : Reading α) : Reading α := ⟨r.outcome, n + r.consumed⟩

def map (f : α → β) (r : Reading α) : Reading β := ⟨r.outcome.map f, r.consumed⟩

/-- Goes on behind what `r` took. -/
def andThen (r : Reading α) (next : α → Reading β) : Reading β :=
  match r.outcome with
  | .ok a => (next a).after r.consumed
  | .error fault => ⟨.error fault, r.consumed⟩

end Reading

namespace Lexeme

open Token (Content Kind)

/-- A blank separates tokens and belongs to none. -/
def isBlank (c : Char) : Bool := c == ' ' || c == '\t' || c == '\r' || c == '\n'

def plain (kind : Kind) : Content := ⟨kind, none⟩

/-- A comment runs to the end of the line. The text begins behind the two slashes. -/
def comment (limits : Limits) (text : List Char) : Reading Content :=
  let body := text.takeWhile (!isLineBreak ·)
  if body.length ≤ limits.comment then
    ⟨.ok ⟨.comment, some (.text (String.ofList body))⟩, body.length⟩
  else ⟨.error (.commentTooLong limits.comment), limits.comment⟩

/-- What a word is: one of the two truth values, another reserved word, or a name. -/
def ofWord (word : String) : Content :=
  match Kind.reserved.lookup word with
  | some .trueWord => ⟨.trueWord, some (.bool true)⟩
  | some .falseWord => ⟨.falseWord, some (.bool false)⟩
  | some kind => plain kind
  | none => ⟨.identifier, some (.text word)⟩

/-- A word goes on for as long as its characters do. -/
def word (limits : Limits) (text : List Char) : Reading Content :=
  let name := text.takeWhile Text.isWordChar
  if name.length ≤ limits.identifier then ⟨.ok (ofWord (String.ofList name)), name.length⟩
  else ⟨.error (.identifierTooLong limits.identifier), limits.identifier⟩

/-- What a backslash and the given character stand for inside quotes. -/
def escaped? : Char → Option Char
  | '"' => some '"'
  | '\\' => some '\\'
  | 'n' => some '\n'
  | 't' => some '\t'
  | _ => none

/-- The characters up to the closing quote, of which `room` more may follow. -/
def quotedBody (limit : Nat) : (room : Nat) → List Char → Reading (List Char)
  | _, [] => ⟨.error .quoteMissing, 0⟩
  | _, '"' :: _ => ⟨.ok [], 1⟩
  | _, ['\\'] => ⟨.error .quoteMissing, 1⟩
  | room, '\\' :: c :: rest =>
    match escaped? c, room with
    | none, _ => ⟨.error (.unknownEscape c), 1⟩
    | some _, 0 => ⟨.error (.textTooLong limit), 1⟩
    | some d, room + 1 => ((quotedBody limit room rest).map (d :: ·)).after 2
  | 0, _ :: _ => ⟨.error (.textTooLong limit), 0⟩
  | room + 1, c :: rest => ((quotedBody limit room rest).map (c :: ·)).after 1

/-- A text literal, from behind its opening quote. -/
def quoted (limits : Limits) (text : List Char) : Reading Content :=
  (quotedBody limits.text limits.text text).map fun cs =>
    ⟨.stringLiteral, some (.text (String.ofList cs))⟩

/-- The digits at the front of a text: their value, their number, and whether reading stopped before a digit
that was one too many. -/
structure Digits where
  value : Nat
  count : Nat
  exceeded : Bool
  deriving DecidableEq, Repr

/-- Reads digits for as long as their count and their value are admitted. -/
def digits (admits : Nat → Nat → Bool) : (value count : Nat) → List Char → Digits
  | value, count, [] => ⟨value, count, false⟩
  | value, count, c :: rest =>
    if c.isDigit then
      let next := 10 * value + Numeral.digitValue c
      if admits (count + 1) next then digits admits next (count + 1) rest
      else ⟨value, count, true⟩
    else ⟨value, count, false⟩

/-- Digits as a reading, with the fault to report if there are too many. -/
def Digits.reading (fault : LexicalFault) (d : Digits) : Reading Digits :=
  ⟨if d.exceeded then .error fault else .ok d, d.count⟩

def whole (limits : Limits) (text : List Char) : Reading Digits :=
  (digits (fun _ value => value ≤ limits.integer.toInt) 0 0 text).reading (.numberTooLarge limits.integer)

/-- A point and the digits behind it, of which there may be none. -/
def fraction (limits : Limits) : List Char → Reading (Option Digits)
  | '.' :: rest =>
    let admits count value := count ≤ limits.decimalPlaces && value < 9223372036854775808
    (((digits admits 0 0 rest).reading (.tooManyPlaces limits.decimalPlaces)).map some).after 1
  | _ => ⟨.ok none, 0⟩

/-- What follows the other parts of a number. -/
inductive Exponent where
  | missing
  | value (exponent : Int)
  /-- The letter and perhaps a sign, but no digit. -/
  | incomplete
  deriving DecidableEq, Repr

def exponentDigits (limits : Limits) (text : List Char) : Reading (Option Nat) :=
  if (text.head?.map Char.isDigit).getD false then
    ((digits (fun _ value => value ≤ limits.exponent.toInt) 0 0 text).reading
      (.exponentTooLarge limits.exponent)).map fun d => some d.value
  else ⟨.ok none, 0⟩

def exponent (limits : Limits) : List Char → Reading Exponent
  | 'e' :: '-' :: rest =>
    ((exponentDigits limits rest).map fun
      | some n => .value (-(n : Int))
      | none => .incomplete).after 2
  | 'e' :: rest =>
    ((exponentDigits limits rest).map fun
      | some n => .value n
      | none => .incomplete).after 1
  | _ => ⟨.ok .missing, 0⟩

/-- The value of a number that has a point or an exponent. -/
def floatValue (whole : Nat) (fraction : Option Digits) (exponent : Int) : Float :=
  let places := fraction.getD ⟨0, 0, false⟩
  (Float.ofNat whole + Float.ofNat places.value / Float.pow 10 (Float.ofNat places.count)) *
    Float.pow 10 (Float.ofInt exponent)

def numeralContent (whole : Digits) (fraction : Option Digits) : Exponent → Content
  | .incomplete => ⟨.invalid, some (.text "e")⟩
  | .value e => ⟨.floatLiteral, some (.float (floatValue whole.value fraction e))⟩
  | .missing =>
    match fraction with
    | some _ => ⟨.floatLiteral, some (.float (floatValue whole.value fraction 0))⟩
    | none => ⟨.intLiteral, some (.int (Int64.ofNat whole.value))⟩

/-- A number: digits, perhaps a point and digits, perhaps an exponent. -/
def numeral (limits : Limits) (text : List Char) : Reading Content :=
  (whole limits text).andThen fun w =>
    let behindWhole := text.drop w.count
    (fraction limits behindWhole).andThen fun f =>
      let behindFraction := match f with
        | some d => behindWhole.drop (1 + d.count)
        | none => behindWhole
      (exponent limits behindFraction).map (numeralContent w f)

/-- A number may not begin with a zero and another digit: then the zero alone is taken, as invalid. -/
def number (limits : Limits) : List Char → Reading Content
  | '0' :: c :: rest =>
    if c.isDigit then ⟨.ok ⟨.invalid, some (.text "0")⟩, 1⟩ else numeral limits ('0' :: c :: rest)
  | text => numeral limits text

/-- The operator that begins with `c`, of two characters if the next one allows it. A character that begins
nothing is a token of its own, and it is unknown. -/
def operator (c : Char) (next : Option Char) : Reading Content :=
  let one kind : Reading Content := ⟨.ok (plain kind), 1⟩
  let either second long short : Reading Content :=
    if next = some second then ⟨.ok (plain long), 2⟩ else one short
  let unknown : Reading Content := ⟨.ok ⟨.unknown, some (.text (String.ofList [c]))⟩, 1⟩
  match c with
  | '+' => one .plus
  | '*' => one .star
  | '^' => one .caret
  | '(' => one .leftParen
  | ')' => one .rightParen
  | '[' => one .leftBracket
  | ']' => one .rightBracket
  | '\x7b' => one .leftBrace
  | '\x7d' => one .rightBrace
  | ',' => one .comma
  | ':' => one .colon
  | '>' => either '=' .greaterEqual .greater
  | '<' => either '=' .lessEqual .less
  | '=' => either '=' .equal .assign
  | '!' => either '=' .notEqual .not
  | '-' => either '>' .arrow .minus
  | '|' => if next = some '|' then ⟨.ok (plain .or), 2⟩ else unknown
  | '&' => if next = some '&' then ⟨.ok (plain .and), 2⟩ else unknown
  | _ => unknown

/-- Reads the token at the front of a text that does not begin with a blank. -/
def read (limits : Limits) : List Char → Reading Content
  | [] => ⟨.ok (plain .etx), 0⟩
  | '/' :: '/' :: rest => (comment limits rest).after 2
  | '/' :: _ => ⟨.ok (plain .slash), 1⟩
  | '"' :: rest => (quoted limits rest).after 1
  | c :: rest =>
    if Text.isAlphabetic c then word limits (c :: rest)
    else if c.isDigit then number limits (c :: rest)
    else operator c rest.head?

end Lexeme

end Mensura
