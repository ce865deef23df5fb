import Mensura.Proofs.Foresight.Settled
import Mensura.Proofs.Printing.Expr

/-!
The first part of a text, whatever stands behind it. A chunk gives some tokens, and where they end the text is read on
as if it began there; so chunks are put together, and nothing is asked of the text behind them but that it does not
continue the last token.
-/

namespace Mensura

open Token (Content Kind)
open Lexeme (Apart Loose)

/-- A word that is read as a name: it is not reserved and not too long. -/
structure Text.IsName (limits : Limits) (name : String) : Prop where
  word : Text.IsWord name
  free : Kind.reserved.lookup name = none
  short : name.length ≤ limits.identifier

/-- What is left to be read from the place of a cursor, but for comments. -/
def Cursor.ahead (limits : Limits) (s : Cursor) : TokenStream := (TokenStream.ofCursor limits s).withoutComments

/-- In front of `tail` the text gives tokens that are as `good` says, and then what comes behind it. -/
def Chunk (limits : Limits) (text tail : List Char) (good : List Token → Prop) : Prop :=
  ∀ s : Cursor, s.rest = text ++ tail →
    ∃ ts, good ts ∧ s.ahead limits = ((Cursor.advanceBy text.length s).ahead limits).prepend ts

namespace Chunk

variable {limits : Limits} {text first second tail : List Char} {good good₁ good₂ : List Token → Prop}

theorem imp {better : List Token → Prop} (h : Chunk limits text tail good) (implies : ∀ ts, good ts → better ts) :
    Chunk limits text tail better := by
  intro s here
  obtain ⟨ts, holds, read⟩ := h s here
  exact ⟨ts, implies ts holds, read⟩

theorem append (h₁ : Chunk limits first (second ++ tail) good₁) (h₂ : Chunk limits second tail good₂) :
    Chunk limits (first ++ second) tail fun ts => ∃ vs ws, ts = vs ++ ws ∧ good₁ vs ∧ good₂ ws := by
  intro s here
  obtain ⟨vs, holds, read⟩ := h₁ s (by rw [here, List.append_assoc])
  obtain ⟨ws, later, readOn⟩ := h₂ (Cursor.advanceBy first.length s) (by
    rw [Cursor.rest_advanceBy, here, List.append_assoc, List.drop_left])
  refine ⟨vs ++ ws, ⟨vs, ws, rfl, holds, later⟩, ?_⟩
  rw [read, readOn, List.length_append, Cursor.advanceBy_add, TokenStream.prepend_append]

/-- A single token. -/
theorem token {c : Char} {rest : List Char} {content : Content} (split : text = c :: rest)
    (visible : Lexeme.isBlank c = false) (read : Lexeme.read limits (text ++ tail) = ⟨.ok content, text.length⟩)
    (kind : content.kind ≠ .etx ∧ content.kind ≠ .comment) :
    Chunk limits text tail fun ts => ∃ t : Token, ts = [t] ∧ t.toContent = content := by
  intro s here
  have next : s.next limits = (.ok ⟨content, s.position⟩, Cursor.advanceBy text.length s) := by
    have start : s.rest = c :: (rest ++ tail) := by rw [here, split, List.cons_append]
    rw [Cursor.next, Cursor.skipBlanks_of_not start visible, here, read]
  have kept : (content.kind != .comment) = true := bne_iff_ne.mpr kind.2
  refine ⟨[⟨content, s.position⟩], ⟨_, rfl, rfl⟩, ?_⟩
  rw [Cursor.ahead, TokenStream.ofCursor_cons next kind.1]
  simp only [TokenStream.withoutComments, List.filter_cons, kept, if_true]
  rfl

theorem symbol (kind : Kind) (isSymbol : kind.symbol ≠ []) (loose : kind.goesOn = false ∨ Loose tail) :
    Chunk limits kind.symbol tail fun ts => ∃ t : Token, ts = [t] ∧ t.kind = kind := by
  obtain ⟨c, rest, split, visible, other⟩ := Scans.visible_symbol isSymbol
  have loose : kind.goesOn = true → Loose tail := fun goesOn => loose.resolve_left (by rw [goesOn]; decide)
  refine (token split visible (Lexeme.read_symbol isSymbol loose) other).imp ?_
  rintro ts ⟨t, single, content⟩
  exact ⟨t, single, congrArg Content.kind content⟩

theorem name {name : String} (isName : Text.IsName limits name) (apart : Apart tail) :
    Chunk limits name.toList tail fun ts => ∃ t position, ts = [t] ∧ Grammar.Names t ⟨name, position⟩ := by
  obtain ⟨c, rest, split, letter⟩ := isName.word.begins
  have content : Lexeme.ofWord name = ⟨.identifier, some (.text name)⟩ := by rw [Lexeme.ofWord, isName.free]
  have read := Lexeme.read_word isName.word isName.short apart
  rw [content] at read
  have kept : Kind.identifier ≠ .etx ∧ Kind.identifier ≠ .comment := by decide
  refine (token split (Scans.visible_of letter (by decide)) read kept).imp ?_
  rintro ts ⟨t, single, content⟩
  exact ⟨t, t.position, single, congrArg Content.kind content, congrArg Content.value content, rfl⟩

theorem natural {n : Nat} (fits : n ≤ limits.integer.toInt) (apart : Apart tail) :
    Chunk limits (Numeral.natural n) tail fun ts => ∃ t, ts = [t] ∧ Grammar.Counts t (Int64.ofNat n) := by
  obtain ⟨c, rest, split, digit⟩ := Lexeme.natural_begins n
  refine (token split (Scans.visible_of digit (by decide)) (Lexeme.read_natural fits apart) ⟨nofun, nofun⟩).imp ?_
  rintro ts ⟨t, single, content⟩
  exact ⟨t, single, congrArg Content.kind content, congrArg Content.value content⟩

end Chunk

namespace Lexeme

theorem digits_exceeded {limit : Int} {ds : List Char} (all : ∀ c ∈ ds, c.isDigit = true) (tail : List Char)
    (value count : Nat) (exceeds : limit < Nat.ofDigitChars 10 ds value) (start : value ≤ limit) :
    (digits (fun _ value => value ≤ limit) value count (ds ++ tail)).exceeded = true := by
  induction ds generalizing value count with
  | nil =>
    rw [Nat.ofDigitChars_nil] at exceeds
    omega
  | cons c ds ih =>
    rw [Nat.ofDigitChars_cons] at exceeds
    rw [List.cons_append, digits, if_pos (all c List.mem_cons_self)]
    dsimp only
    split
    · rename_i admitted
      exact ih (fun d mem => all d (List.mem_cons_of_mem c mem)) _ _ exceeds (of_decide_eq_true admitted)
    · rfl

theorem read_natural_exceeded {limits : Limits} {n : Nat} {tail : List Char} (limit : 0 ≤ limits.integer.toInt)
    (exceeds : limits.integer.toInt < n) (apart : Apart tail) :
    (read limits (Numeral.natural n ++ tail)).outcome = .error (.numberTooLarge limits.integer) := by
  have value : Nat.ofDigitChars 10 (Numeral.natural n) 0 = n := Nat.ofDigitChars_ten_toDigits
  have exceeded :
      (digits (fun _ value => value ≤ limits.integer.toInt) 0 0 (Numeral.natural n ++ tail)).exceeded = true :=
    digits_exceeded natural_isDigit tail 0 0 (by rwa [value]) limit
  have numeral : (numeral limits (Numeral.natural n ++ tail)).outcome = .error (.numberTooLarge limits.integer) := by
    simp only [numeral, whole, Digits.reading, exceeded, if_true, Reading.andThen]
  rw [← numeral, ← number_natural n apart]
  obtain ⟨c, ds, split, digit⟩ := natural_begins n
  rw [split]
  exact congrArg Reading.outcome (read_digit digit (ds ++ tail))

end Lexeme

/-- A number that is too large ends the reading. -/
theorem Cursor.ahead_of_exceeded {limits : Limits} {n : Nat} {tail : List Char} (limit : 0 ≤ limits.integer.toInt)
    (exceeds : limits.integer.toInt < n) (apart : Apart tail) {s : Cursor} (here : s.rest = Numeral.natural n ++ tail) :
    ∃ e, s.ahead limits = ⟨[], .error e⟩ := by
  obtain ⟨c, rest, split, digit⟩ := Lexeme.natural_begins n
  have start : s.rest = c :: (rest ++ tail) := by rw [here, split, List.cons_append]
  have fault : ∃ e t, s.next limits = (.error e, t) := by
    rw [Cursor.next, Cursor.skipBlanks_of_not start (Scans.visible_of digit (by decide)), here,
      Lexeme.read_natural_exceeded limit exceeds apart]
    exact ⟨_, _, rfl⟩
  obtain ⟨e, t, fault⟩ := fault
  exact ⟨e, by rw [ahead, TokenStream.ofCursor_error fault]; rfl⟩

end Mensura
