import Mathlib.Data.List.TakeWhile
import Mensura.Proofs.Result
import Mensura.Token.Stream

/-!
What tokens can be read from a text at all. Main statement: a name is a word that is not reserved, an integer is
not negative, the values suit the kinds, everything keeps to its limit, and only at its end is a text read as the
mark of its end.
-/

namespace Mensura

/-- A letter, and then letters, digits and underscores. -/
structure Text.IsWord (word : String) : Prop where
  begins : ∃ c rest, word.toList = c :: rest ∧ isAlphabetic c = true
  goesOn : ∀ c ∈ word.toList, isWordChar c = true

/-- What a token holds that is read from a text, by its kind. -/
def Token.Content.Legible (limits : Limits) (content : Token.Content) : Prop :=
  match content.kind with
  | .identifier =>
    ∃ name, content.value = some (.text name) ∧ Text.IsWord name ∧ Kind.reserved.lookup name = none ∧
      name.length ≤ limits.identifier
  | .intLiteral =>
    ∃ n : Int64, content.value = some (.int n) ∧ 0 ≤ n.toInt ∧ n.toInt ≤ limits.integer.toInt
  | .floatLiteral => ∃ x, content.value = some (.float x)
  | .stringLiteral => ∃ s, content.value = some (.text s) ∧ s.length ≤ limits.text
  | kind => ∀ word, (word, kind) ∈ Kind.reserved → word.length ≤ limits.identifier

/-- The kinds of which nothing is asked: neither words nor literals, nor the mark of the end. -/
def Token.Kind.isFree : Token.Kind → Bool
  | .letWord | .unitWord | .returnWord | .ifWord | .elseWord | .whileWord => false
  | .stringType | .boolType | .voidType | .trueWord | .falseWord => false
  | .identifier | .intLiteral | .floatLiteral | .stringLiteral | .etx => false
  | _ => true

theorem Token.Content.legible_of_isFree {limits : Limits} {content : Token.Content}
    (h : content.kind.isFree = true) : content.Legible limits ∧ content.kind ≠ .etx := by
  obtain ⟨kind, value⟩ := content
  cases kind <;> first | cases h; done | exact ⟨by simp [Legible, Kind.reserved], nofun⟩

namespace Reading

variable {α β : Type}

theorem andThen_eq_ok {r : Reading α} {next : α → Reading β} {b : β} :
    (r.andThen next).outcome = .ok b ↔ ∃ a, r.outcome = .ok a ∧ (next a).outcome = .ok b := by
  unfold andThen
  cases h : r.outcome <;> simp [after]

end Reading

namespace Lexeme

open Token (Content Kind)

variable {limits : Limits} {content : Content}

theorem comment_isFree {text : List Char} (h : (comment limits text).outcome = .ok content) :
    content.kind.isFree = true := by
  unfold comment at h
  dsimp only at h
  split at h
  · cases h
    rfl
  · cases h

/-- Every reserved word has a kind of its own. -/
theorem reserved_injective : ∀ p ∈ Kind.reserved, ∀ q ∈ Kind.reserved, p.2 = q.2 → p.1 = q.1 := by decide

theorem ofWord_eq_or (word : String) :
    Kind.reserved.lookup word = none ∧ ofWord word = ⟨.identifier, some (.text word)⟩ ∨
      (word, (ofWord word).kind) ∈ Kind.reserved := by
  unfold ofWord
  cases found : Kind.reserved.lookup word with
  | none => exact .inl ⟨rfl, rfl⟩
  | some kind =>
    refine .inr ?_
    obtain ⟨before, after, split, -⟩ := List.lookup_eq_some_iff.mp found
    have mem : (word, kind) ∈ Kind.reserved := by rw [split]; simp
    clear found split
    cases kind <;> exact mem

/-- A reserved word is as long as the word that its kind is read from. -/
theorem reserved_legible {word : String} (mem : (word, content.kind) ∈ Kind.reserved)
    (length : word.length ≤ limits.identifier) : content.Legible limits ∧ content.kind ≠ .etx := by
  have only (other : String) (h : (other, content.kind) ∈ Kind.reserved) : other.length ≤ limits.identifier := by
    have same : other = word := reserved_injective _ h _ mem rfl
    rwa [same]
  obtain ⟨kind, value⟩ := content
  have reserved : ∀ p ∈ Kind.reserved, p.2 ≠ .identifier ∧ p.2 ≠ .intLiteral ∧ p.2 ≠ .floatLiteral ∧
      p.2 ≠ .stringLiteral ∧ p.2 ≠ .etx := by decide
  obtain ⟨identifier, int, float, text, etx⟩ := reserved _ mem
  refine ⟨?_, etx⟩
  cases kind <;> first | exact only | contradiction

theorem word_legible {c : Char} {rest : List Char} (letter : Text.isAlphabetic c = true)
    (h : (word limits (c :: rest)).outcome = .ok content) : content.Legible limits ∧ content.kind ≠ .etx := by
  unfold word at h
  dsimp only at h
  split at h
  case isFalse => cases h
  case isTrue short =>
    cases h
    have begins : Text.isWordChar c = true := by simp [Text.isWordChar, letter]
    have length : (String.ofList ((c :: rest).takeWhile Text.isWordChar)).length ≤ limits.identifier := by
      rwa [String.length_ofList]
    have isWord : Text.IsWord (String.ofList ((c :: rest).takeWhile Text.isWordChar)) := by
      constructor
      · exact ⟨c, _, by rw [String.toList_ofList, List.takeWhile_cons_of_pos begins], letter⟩
      · rw [String.toList_ofList]
        exact fun d mem => List.mem_takeWhile_imp mem
    generalize String.ofList ((c :: rest).takeWhile Text.isWordChar) = name at length isWord ⊢
    obtain ⟨free, same⟩ | mem := ofWord_eq_or name
    · rw [same]
      exact ⟨⟨name, rfl, isWord, free, length⟩, by rintro ⟨⟩⟩
    · exact reserved_legible mem length

theorem quotedBody_length {limit room : Nat} {text cs : List Char}
    (h : (quotedBody limit room text).outcome = .ok cs) : cs.length ≤ room := by
  fun_induction quotedBody limit room text generalizing cs with
  | case1 | case3 | case4 | case5 | case7 => cases h
  | case2 => cases h; exact Nat.zero_le _
  | case6 room c rest d _ ih | case8 room c rest _ _ _ ih =>
    obtain ⟨ds, read, rfl⟩ := map_eq_ok.mp h
    exact Nat.succ_le_succ (ih read)

theorem quoted_legible {text : List Char} (h : (quoted limits text).outcome = .ok content) :
    content.Legible limits ∧ content.kind ≠ .etx := by
  obtain ⟨cs, read, rfl⟩ := map_eq_ok.mp h
  have length := quotedBody_length read
  exact ⟨⟨_, rfl, by rwa [String.length_ofList]⟩, nofun⟩

/-- What has been read of digits is admitted, or nothing has been read. -/
theorem digits_admitted (admits : Nat → Nat → Bool) (value count : Nat) (text : List Char) :
    (digits admits value count text).value = value ∧ (digits admits value count text).count = count ∨
      admits (digits admits value count text).count (digits admits value count text).value = true := by
  fun_induction digits admits value count text with
  | case1 | case3 | case4 => exact .inl ⟨rfl, rfl⟩
  | case2 value count c rest digit next admitted ih =>
    obtain ⟨sameValue, sameCount⟩ | further := ih
    · exact .inr (by rw [sameValue, sameCount]; exact admitted)
    · exact .inr further

theorem Digits.eq_of_reading {fault : LexicalFault} {d e : Digits} (read : (d.reading fault).outcome = .ok e) :
    e = d := by
  rw [Digits.reading, if_neg (by rw [exceeded_eq_false read]; decide)] at read
  exact (Except.ok.inj read).symm

/-- The whole part of a number that begins with a digit keeps to the limit, and so it is a word. -/
theorem whole_value {c : Char} {rest : List Char} {d : Digits} (digit : c.isDigit = true)
    (h : (whole limits (c :: rest)).outcome = .ok d) : (Int64.ofNat d.value).toInt = d.value ∧
      (d.value : Int) ≤ limits.integer.toInt := by
  have read := digits_count_pos digit (Digits.exceeded_eq_false h)
  obtain rfl := Digits.eq_of_reading h
  obtain ⟨-, none⟩ | admitted := digits_admitted (fun _ value => value ≤ limits.integer.toInt) 0 0 (c :: rest)
  · omega
  · have bound := of_decide_eq_true admitted
    have := limits.integer.toInt_lt
    exact ⟨Int64.toInt_ofNat_of_lt (by omega), bound⟩

theorem numeral_legible {c : Char} {rest : List Char} (digit : c.isDigit = true)
    (h : (numeral limits (c :: rest)).outcome = .ok content) : content.Legible limits ∧ content.kind ≠ .etx := by
  obtain ⟨w, read, h⟩ := Reading.andThen_eq_ok.mp h
  obtain ⟨f, -, h⟩ := Reading.andThen_eq_ok.mp h
  obtain ⟨e, -, rfl⟩ := map_eq_ok.mp h
  obtain ⟨exact, bound⟩ := whole_value digit read
  cases e with
  | incomplete => exact Content.legible_of_isFree rfl
  | value e => exact ⟨⟨_, rfl⟩, nofun⟩
  | missing =>
    cases f with
    | some d => exact ⟨⟨_, rfl⟩, nofun⟩
    | none => exact ⟨⟨_, rfl, by omega, by omega⟩, nofun⟩

theorem number_legible {c : Char} {rest : List Char} (digit : c.isDigit = true)
    (h : (number limits (c :: rest)).outcome = .ok content) : content.Legible limits ∧ content.kind ≠ .etx := by
  unfold number at h
  split at h
  · split at h
    · cases h
      exact Content.legible_of_isFree rfl
    · exact numeral_legible rfl h
  · exact numeral_legible digit h

theorem operator_isFree {c : Char} {next : Option Char} (h : (operator c next).outcome = .ok content) :
    content.kind.isFree = true := by
  unfold operator at h
  dsimp only at h
  split at h <;> (try split at h) <;> cases h <;> rfl

/-- What has been read is legible, and it is the mark of the end only where nothing is left. -/
theorem read_legible {text : List Char} (h : (read limits text).outcome = .ok content) :
    content.Legible limits ∧ (content.kind = .etx → text = []) := by
  have ahead (legible : content.Legible limits ∧ content.kind ≠ .etx) :
      content.Legible limits ∧ (content.kind = .etx → text = []) := ⟨legible.1, fun ended => absurd ended legible.2⟩
  revert h ahead
  fun_cases read limits text with
  | case1 =>
    rintro h -
    cases h
    exact ⟨by simp [Content.Legible, plain, Kind.reserved], fun _ => rfl⟩
  | case2 => exact fun h ahead => ahead (Content.legible_of_isFree (comment_isFree h))
  | case3 =>
    rintro h ahead
    cases h
    exact ahead (Content.legible_of_isFree rfl)
  | case4 => exact fun h ahead => ahead (quoted_legible h)
  | case5 _ _ _ _ _ letter => exact fun h ahead => ahead (word_legible letter h)
  | case6 _ _ _ _ _ _ digit => exact fun h ahead => ahead (number_legible digit h)
  | case7 => exact fun h ahead => ahead (Content.legible_of_isFree (operator_isFree h))

end Lexeme

theorem Cursor.next_legible {limits : Limits} {s t : Cursor} {token : Token} (h : s.next limits = (.ok token, t)) :
    token.toContent.Legible limits := by
  unfold Cursor.next at h
  dsimp only at h
  split at h
  · rename_i content read
    cases h
    exact (Lexeme.read_legible read).1
  · cases h

/-- All tokens of a text are legible, and none of them is the mark of the end. -/
theorem TokenStream.ofCursor_legible (limits : Limits) (s : Cursor) :
    ∀ t ∈ (ofCursor limits s).tokens, t.toContent.Legible limits ∧ t.kind ≠ .etx := by
  fun_induction ofCursor limits s with
  | case1 | case2 =>
    intro t mem
    cases mem
  | case3 s token t read more later ih =>
    intro u mem
    obtain rfl | mem := List.mem_cons.mp mem
    · exact ⟨Cursor.next_legible read, more⟩
    · exact ih u mem

end Mensura
