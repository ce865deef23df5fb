import Mensura.Proofs.Program.Places
import Mensura.Proofs.Token.Places

/-!
Reading never meets what it has no answer to. What a text is scanned as has the values that the kinds ask for, also
behind faults, and from such tokens nothing is refused as malformed, in whatever order they come. Numbers that are
negated have an opposite, and a token that is taken as an operator is one.
-/

namespace Mensura

open Token (Kind)

theorem Token.suits_of_isProper {t : Token} (proper : t.isProper = true) : t.suits = true := by
  unfold isProper at proper
  unfold Content.suits
  generalize t.kind = kind at proper ⊢
  cases kind <;> first | exact proper | rfl

theorem Token.isProper_of_suits {t : Token} (suits : t.suits = true) (comment : t.kind ≠ .comment)
    (etx : t.kind ≠ .etx) : t.isProper = true := by
  unfold Content.suits at suits
  unfold isProper
  generalize t.kind = kind at suits comment etx ⊢
  cases kind <;> first | exact suits | rfl | contradiction

theorem Token.suits_of_legible {limits : Limits} {t : Token} (legible : t.toContent.Legible limits) :
    t.suits = true := by
  by_cases last : t.kind = .etx
  · simp only [Content.suits, last]
  by_cases comment : t.kind = .comment
  · simp only [Content.suits, comment]
  · exact suits_of_isProper (isProper_of_legible legible last comment)

theorem Cursor.next_suits {limits : Limits} {s : Cursor} {token : Token} (read : (s.next limits).1 = .ok token) :
    token.suits = true :=
  Token.suits_of_legible (next_legible (Prod.ext read rfl))

theorem TokenStream.ofText_suits (limits : Limits) (text : String) :
    ∀ token ∈ (ofText limits text).tokens, token.suits = true :=
  fun token mem => Token.suits_of_legible (ofCursor_legible limits _ token mem).1

/-! ### Numbers that are negated -/

namespace Lexeme

theorem exponentDigits_lt {limits : Limits} {text : List Char} {n : Nat}
    (read : (exponentDigits limits text).outcome = .ok (some n)) : n < 2147483648 := by
  unfold exponentDigits at read
  split at read
  · obtain ⟨d, read, same⟩ := map_eq_ok.mp read
    obtain rfl := Digits.eq_of_reading read
    have := Option.some.inj same
    have := limits.exponent.toInt_lt
    obtain ⟨zero, -⟩ | admitted := digits_admitted (fun _ value => value ≤ limits.exponent.toInt) 0 0 text
    · omega
    · rw [decide_eq_true_eq] at admitted
      omega
  · cases read

/-- An exponent is a word of 32 bits, and so is its opposite. -/
theorem exponentDigits_opposite {limits : Limits} {text : List Char} {n : Nat}
    (read : (exponentDigits limits text).outcome = .ok (some n)) : ∃ p q : Int32, p.toInt = n ∧ q.toInt = -n := by
  have small := exponentDigits_lt read
  have word (m : Int) (low : -2147483648 ≤ m) (high : m < 2147483648) : ∃ p : Int32, p.toInt = m := by
    have fits : int32? m ≠ none := by
      rw [ne_eq, int32?_eq_none_iff]
      omega
    obtain ⟨p, fits⟩ := Option.ne_none_iff_exists'.mp fits
    exact ⟨p, int32?_eq_some_iff.mp fits⟩
  obtain ⟨p, plus⟩ := word n (by omega) (by omega)
  obtain ⟨q, minus⟩ := word (-n) (by omega) (by omega)
  exact ⟨p, q, plus, minus⟩

end Lexeme

namespace Program

theorem ofTokens_tame {s : TokenStream} (suits : ∀ token ∈ s.tokens, token.suits = true) (m : Malformed) :
    ofTokens s ≠ .error (.malformed m) := by
  have kept : ∀ token ∈ s.withoutComments.tokens, token.suits = true :=
    fun token mem => suits token (List.mem_filter.mp mem).1
  exact (placelessResult_ofTokens ⟨rfl, kept⟩).2 m

/-- Reading never fails from inside. Whatever has been asked for before, a token that a text is scanned as has a value
that suits its kind. From tokens with such values, in whatever order they come and wherever the reading begins,
nothing is refused as malformed: no value of the wrong sort, and no power without an opposite. Only an operator is
taken as one, and an exponent has an opposite too. So no text is refused as malformed. -/
theorem never_malformed :
    (∀ limits text n token, (((Cursor.ofText text).afterCalls limits n).next limits).1 = .ok token →
      token.suits = true) ∧
    (∀ s : TokenStream, (∀ token ∈ s.tokens, token.suits = true) → ∀ m,
      (∀ n rounds p, Parser.items n rounds p s ≠ .error (.malformed m)) ∧ ofTokens s ≠ .error (.malformed m)) ∧
    (∀ operator? ∈ [Parser.or?, Parser.and?, Parser.comparison?, Parser.sum?, Parser.product?], ∀ kind op,
      operator? kind = some op → op.kind = kind) ∧
    (∀ kind op, Parser.unaryOp? kind = some op → op.kind = kind) ∧
    (∀ limits text n, (Lexeme.exponentDigits limits text).outcome = .ok (some n) →
      ∃ p q : Int32, p.toInt = n ∧ q.toInt = -n) ∧
    ∀ limits text m, ofText limits text ≠ .error (.malformed m) := by
  have tables : ∀ operator? ∈ [Parser.or?, Parser.and?, Parser.comparison?, Parser.sum?, Parser.product?],
      ∃ r, Parser.Operators operator? r := by
    simp only [List.forall_mem_cons]
    exact ⟨⟨4, Parser.or_operators⟩, ⟨3, Parser.and_operators⟩, ⟨2, Parser.comparison_operators⟩,
      ⟨1, Parser.sum_operators⟩, ⟨0, Parser.product_operators⟩, nofun⟩
  refine ⟨?_, ?_, ?_, ?_, ?_, ?_⟩
  · intro limits text n token read
    exact Cursor.next_suits read
  · intro s suits m
    constructor
    · intro n rounds p
      exact (Parser.InStep.items n rounds rfl ⟨rfl, suits⟩).tame m
    · exact ofTokens_tame suits m
  · intro operator? mem kind op taken
    obtain ⟨r, table⟩ := tables operator? mem
    exact ((table kind op).mp taken).2
  · intro kind op taken
    exact Parser.unaryOp?_eq_some_iff.mp taken
  · intro limits text n read
    exact Lexeme.exponentDigits_opposite read
  · intro limits text m
    exact ofTokens_tame (TokenStream.ofText_suits limits text) m

/-- A unit with a power that is out of range although its opposite is not, and two marks of the end, one of them in
the middle. -/
def leastPower : TokenStream where
  tokens := [⟨⟨.unitWord, none⟩, ⟨1, 1⟩⟩, ⟨⟨.identifier, some (.text "a")⟩, ⟨1, 6⟩⟩, ⟨⟨.colon, none⟩, ⟨1, 7⟩⟩,
    ⟨⟨.leftBracket, none⟩, ⟨1, 9⟩⟩, ⟨⟨.identifier, some (.text "s")⟩, ⟨1, 10⟩⟩, ⟨⟨.caret, none⟩, ⟨1, 11⟩⟩,
    ⟨⟨.minus, none⟩, ⟨1, 12⟩⟩, ⟨⟨.intLiteral, some (.int 2147483648)⟩, ⟨1, 13⟩⟩, .etx ⟨1, 23⟩,
    ⟨⟨.rightBracket, none⟩, ⟨1, 23⟩⟩]
  ending := .ok ⟨1, 24⟩

theorem never_malformed_leastPower :
    (∀ token ∈ leastPower.tokens, token.suits = true) ∧ (∀ m, ofTokens leastPower ≠ .error (.malformed m)) ∧
      (Lexeme.exponentDigits {} "308".toList).outcome = .ok (some 308) ∧
      ∃ p q : Int32, p.toInt = (308 : Nat) ∧ q.toInt = -(308 : Nat) := by
  obtain ⟨-, tame, -, -, opposite, -⟩ := never_malformed
  have suits : ∀ token ∈ leastPower.tokens, token.suits = true := by decide
  have read : (Lexeme.exponentDigits {} "308".toList).outcome = .ok (some 308) := by decide +kernel
  exact ⟨suits, fun m => (tame leastPower suits m).2, read, opposite _ _ _ read⟩

end Program

end Mensura
