import Mensura.Token.Lexeme

/-!
From a text to its tokens. A cursor skips blanks, reads a token at the place where it then stands and moves
behind what was read; a fault is reported where the cursor has stopped. A stream holds the tokens up to the
end of the text or up to the first fault. Main statement: reading a token shortens what is ahead, so that
every text has a stream.
-/

namespace Mensura

namespace Lexeme

theorem digits_count_le (admits : Nat → Nat → Bool) (value count : Nat) (text : List Char) :
    count ≤ (digits admits value count text).count := by
  fun_induction digits admits value count text with
  | case1 | case3 | case4 => exact Nat.le_refl _
  | case2 _ _ _ _ _ _ _ ih => exact Nat.le_trans (Nat.le_succ _) ih

theorem digits_count_pos {admits : Nat → Nat → Bool} {c : Char} {rest : List Char}
    (digit : c.isDigit = true) (kept : (digits admits 0 0 (c :: rest)).exceeded = false) :
    0 < (digits admits 0 0 (c :: rest)).count := by
  rw [digits, if_pos digit] at kept ⊢
  dsimp only at kept ⊢
  split
  · exact digits_count_le _ _ _ _
  · rename_i refused
    rw [if_neg refused] at kept
    cases kept

/-- Digits that are read at all are not too many. -/
theorem Digits.exceeded_eq_false {fault : LexicalFault} {d e : Digits} (read : (d.reading fault).outcome = .ok e) :
    d.exceeded = false := by
  rw [Bool.eq_false_iff]
  intro exceeded
  simp [Digits.reading, exceeded] at read

theorem numeral_consumed_pos {limits : Limits} {c : Char} {rest : List Char} {content : Token.Content}
    (digit : c.isDigit = true) (h : (numeral limits (c :: rest)).outcome = .ok content) :
    0 < (numeral limits (c :: rest)).consumed := by
  unfold numeral Reading.andThen at h ⊢
  split
  · rename_i d kept
    have taken := digits_count_pos digit (Digits.exceeded_eq_false kept)
    exact Nat.lt_of_lt_of_le taken (Nat.le_add_right _ _)
  · rename_i fault lost
    simp only [lost] at h
    cases h

theorem number_consumed_pos {limits : Limits} {c : Char} {rest : List Char} {content : Token.Content}
    (digit : c.isDigit = true) (h : (number limits (c :: rest)).outcome = .ok content) :
    0 < (number limits (c :: rest)).consumed := by
  unfold number at h ⊢
  split at h
  · split at h
    · rename_i second
      rw [if_pos second]
      exact Nat.one_pos
    · rename_i second
      rw [if_neg second]
      exact numeral_consumed_pos rfl h
  · exact numeral_consumed_pos digit h

theorem word_consumed_pos {limits : Limits} {c : Char} {rest : List Char} {content : Token.Content}
    (letter : Text.isAlphabetic c = true) (h : (word limits (c :: rest)).outcome = .ok content) :
    0 < (word limits (c :: rest)).consumed := by
  have begins : Text.isWordChar c = true := by simp [Text.isWordChar, letter]
  simp only [word, List.takeWhile_cons, begins, if_true] at h ⊢
  split
  · exact Nat.succ_pos _
  · rename_i long
    simp only [if_neg long] at h
    cases h

theorem operator_consumed_pos (c : Char) (next : Option Char) : 0 < (operator c next).consumed := by
  unfold operator
  dsimp only
  split <;> first | exact Nat.one_pos | (split <;> first | exact Nat.one_pos | exact Nat.two_pos)

/-- A token at the front of a text that is not empty takes at least one of its characters. -/
theorem read_consumed_pos {limits : Limits} {text : List Char} {content : Token.Content}
    (ahead : text ≠ []) (h : (read limits text).outcome = .ok content) :
    0 < (read limits text).consumed := by
  revert h
  fun_cases read limits text with
  | case1 => exact absurd rfl ahead
  | case2 => exact fun _ => Nat.lt_of_lt_of_le Nat.two_pos (Nat.le_add_right _ _)
  | case3 => exact fun _ => Nat.one_pos
  | case4 => exact fun _ => Nat.lt_of_lt_of_le Nat.one_pos (Nat.le_add_right _ _)
  | case5 _ _ _ _ _ letter => exact word_consumed_pos letter
  | case6 _ _ _ _ _ _ digit => exact number_consumed_pos digit
  | case7 => exact fun _ => operator_consumed_pos _ _

end Lexeme

namespace Cursor

def skipBlanks (s : Cursor) : Cursor := advanceBy (s.rest.takeWhile Lexeme.isBlank).length s

/-- Reads the next token. At the end of the text this is the mark of the end, as often as it is asked for.
The cursor comes back behind the token, or at the character that a fault was found at. -/
def next (limits : Limits) (s : Cursor) : Except LexicalError Token × Cursor :=
  let here := s.skipBlanks
  let reading := Lexeme.read limits here.rest
  let there := advanceBy reading.consumed here
  match reading.outcome with
  | .ok content => (.ok ⟨content, here.position⟩, there)
  | .error fault => (.error ⟨fault, there.position⟩, there)

theorem next_rest_length_lt {limits : Limits} {s : Cursor} {token : Token}
    (h : (s.next limits).1 = .ok token) (more : token.kind ≠ .etx) :
    (s.next limits).2.rest.length < s.rest.length := by
  have skipped : s.skipBlanks.rest.length ≤ s.rest.length := by
    simp [skipBlanks, rest_advanceBy]
  unfold next at h ⊢
  dsimp only at h ⊢
  split at h
  · rename_i content read
    cases h
    have ahead : s.skipBlanks.rest ≠ [] := fun none => by
      rw [none] at read
      cases read
      exact more rfl
    have taken := Lexeme.read_consumed_pos ahead read
    have := List.length_pos_iff.mpr ahead
    simp only [rest_advanceBy, List.length_drop]
    omega
  · cases h

/-- Reads the next token that is not a comment. -/
def nextUncommented (limits : Limits) (s : Cursor) : Except LexicalError Token × Cursor :=
  match _h : s.next limits with
  | (.error e, t) => (.error e, t)
  | (.ok token, t) =>
    if _comment : token.kind = .comment then nextUncommented limits t else (.ok token, t)
termination_by s.rest.length
decreasing_by
  have read := next_rest_length_lt (congrArg Prod.fst _h) (by rw [_comment]; decide)
  simpa only [_h] using read

end Cursor

/-- The tokens of a text in order, without the mark of its end, and then that mark's place or the fault that
ends the reading. -/
structure TokenStream where
  tokens : List Token
  ending : Except LexicalError Position

namespace TokenStream

/-- Everything that a cursor reads. -/
def ofCursor (limits : Limits) (s : Cursor) : TokenStream :=
  match _h : s.next limits with
  | (.error e, _) => ⟨[], .error e⟩
  | (.ok token, t) =>
    if _more : token.kind = .etx then ⟨[], .ok token.position⟩
    else
      let later := ofCursor limits t
      ⟨token :: later.tokens, later.ending⟩
termination_by s.rest.length
decreasing_by simpa only [_h] using Cursor.next_rest_length_lt (congrArg Prod.fst _h) _more

def ofText (limits : Limits) (text : String) : TokenStream := ofCursor limits (.ofText text)

def withoutComments (s : TokenStream) : TokenStream :=
  { s with tokens := s.tokens.filter fun t => t.kind != .comment }

/-- All tokens with the mark of the end, unless a fault ends the reading. -/
def listing (s : TokenStream) : Except LexicalError (List Token) :=
  s.ending.map fun p => s.tokens ++ [.etx p]

end TokenStream

end Mensura
