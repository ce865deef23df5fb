import Mensura.Proofs.Text.Unbroken
import Mensura.Proofs.Token.Places

/-!
What tokens show. Main statement: among the tokens of a text only the text literals can hold a line break; a comment
ends before one, and a character that belongs to no token is never one.
-/

namespace Mensura

open Token (Content Kind)
open Text (Unbroken)

theorem Token.Value.text_display_unbroken_iff {s : String} : Unbroken (Value.text s).display ↔ Unbroken s := by
  unfold display
  rw [Text.unbroken_append, Text.unbroken_append, and_iff_left (.literal rfl), and_iff_right (.literal rfl)]

/-- It is a text literal, or what it shows stays on one line. -/
def Token.Content.Inline (content : Content) : Prop :=
  (∃ s, content = ⟨.stringLiteral, some (.text s)⟩) ∨ ∀ v, content.value = some v → Unbroken v.display

namespace Token.Content.Inline

theorem plain (kind : Kind) : Inline ⟨kind, none⟩ := .inr nofun

theorem of_value {kind : Kind} {v : Value} (h : Unbroken v.display) : Inline ⟨kind, some v⟩ := by
  right
  rintro _ ⟨⟩
  exact h

theorem of_text {kind : Kind} {cs : List Char} (h : ∀ c ∈ cs, isLineBreak c = false) :
    Inline ⟨kind, some (.text (.ofList cs))⟩ :=
  of_value (Value.text_display_unbroken_iff.mpr (Text.unbroken_ofList.mpr h))

end Token.Content.Inline

namespace Lexeme

open Token.Content (Inline)

variable {limits : Limits} {content : Content} {text : List Char}

theorem comment_inline (h : (comment limits text).outcome = .ok content) : content.Inline := by
  unfold comment at h
  dsimp only at h
  split at h
  · cases h
    apply Inline.of_text
    intro c mem
    simpa using List.mem_takeWhile_imp mem
  · cases h

theorem ofWord_inline {cs : List Char} (h : ∀ c ∈ cs, isLineBreak c = false) : (ofWord (.ofList cs)).Inline := by
  unfold ofWord
  split
  · exact .of_value (.literal rfl)
  · exact .of_value (.literal rfl)
  · exact .plain _
  · exact .of_text h

theorem word_inline (h : (word limits text).outcome = .ok content) : content.Inline := by
  unfold word at h
  dsimp only at h
  split at h
  · cases h
    apply ofWord_inline
    intro c mem
    exact Text.isLineBreak_of_isWordChar (List.mem_takeWhile_imp mem)
  · cases h

theorem quoted_inline (h : (quoted limits text).outcome = .ok content) : content.Inline := by
  obtain ⟨cs, -, rfl⟩ := map_eq_ok.mp h
  exact .inl ⟨_, rfl⟩

theorem numeralContent_inline (w : Digits) (f : Option Digits) (e : Exponent) : (numeralContent w f e).Inline := by
  unfold numeralContent
  split
  · exact .of_text (Text.isLineBreak_of_all rfl)
  · exact .of_value (Numeral.plain_unbroken _)
  · split
    · exact .of_value (Numeral.plain_unbroken _)
    · exact .of_value (Numeral.integer_unbroken _)

theorem numeral_inline (h : (numeral limits text).outcome = .ok content) : content.Inline := by
  obtain ⟨w, -, h⟩ := Reading.andThen_eq_ok.mp h
  obtain ⟨f, -, h⟩ := Reading.andThen_eq_ok.mp h
  obtain ⟨e, -, rfl⟩ := map_eq_ok.mp h
  exact numeralContent_inline w f e

theorem number_inline (h : (number limits text).outcome = .ok content) : content.Inline := by
  unfold number at h
  split at h
  · split at h
    · cases h
      exact .of_text (Text.isLineBreak_of_all rfl)
    · exact numeral_inline h
  · exact numeral_inline h

theorem operator_inline {c : Char} {next : Option Char} (visible : isBlank c = false)
    (h : (operator c next).outcome = .ok content) : content.Inline := by
  have unknown : Inline ⟨.unknown, some (.text (.ofList [c]))⟩ := by
    simp only [isBlank, Bool.or_eq_false_iff] at visible
    have same : isLineBreak c = false := by simp only [isLineBreak, visible, Bool.or_false]
    exact .of_text (List.forall_mem_singleton.mpr same)
  unfold operator at h
  dsimp only at h
  split at h <;> (try split at h) <;> cases h <;> first | exact .plain _ | exact unknown

/-- What stands at the front of a text that does not begin with a blank. -/
theorem read_inline (visible : ∀ c ∈ text.head?, isBlank c = false) (h : (read limits text).outcome = .ok content) :
    content.Inline := by
  revert h
  fun_cases read limits text with
  | case1 | case3 =>
    rintro ⟨⟩
    exact .plain _
  | case2 => exact comment_inline
  | case4 => exact quoted_inline
  | case5 => exact word_inline
  | case6 => exact number_inline
  | case7 c => exact operator_inline (visible c rfl)

end Lexeme

theorem Cursor.next_inline {limits : Limits} {s t : Cursor} {token : Token} (h : s.next limits = (.ok token, t)) :
    token.toContent.Inline := by
  obtain ⟨-, -, -, visible⟩ := s.exists_blanks
  unfold Cursor.next at h
  dsimp only at h
  split at h
  · rename_i content read
    cases h
    exact Lexeme.read_inline visible read
  · cases h

theorem TokenStream.ofCursor_inline (limits : Limits) (s : Cursor) :
    ∀ t ∈ (ofCursor limits s).tokens, t.toContent.Inline := by
  fun_induction ofCursor limits s with
  | case1 | case2 =>
    intro t mem
    cases mem
  | case3 s token t read more later ih =>
    exact List.forall_mem_cons.mpr ⟨Cursor.next_inline read, ih⟩

end Mensura
