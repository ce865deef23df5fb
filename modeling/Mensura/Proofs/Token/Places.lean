import Mensura.Proofs.Text.Lines
import Mensura.Proofs.Token.Legible

/-!
The places of tokens. Tokens may be asked for any number of times, behind faults and behind the end of the text as
well, and the cursor never loses its place. Main statement: a token is at the place of its first character, a fault
at the place of the character where reading has stopped, and the end where the text ends, by the cut of the whole
text into lines.
-/

namespace Mensura

namespace Cursor

open Text (positionAt)

/-- Where a cursor is when it has been asked for `n` tokens, whatever it has answered. -/
def afterCalls (limits : Limits) : (n : Nat) → Cursor → Cursor
  | 0, s => s
  | n + 1, s => afterCalls limits n (s.next limits).2

/-- The blanks that are skipped are blanks, and what is ahead then does not begin with one. -/
theorem exists_blanks (s : Cursor) :
    ∃ blanks, s.rest = blanks ++ s.skipBlanks.rest ∧ (∀ c ∈ blanks, Lexeme.isBlank c = true) ∧
      ∀ c ∈ s.skipBlanks.rest.head?, Lexeme.isBlank c = false := by
  have ahead : s.skipBlanks.rest = s.rest.dropWhile Lexeme.isBlank := by
    rw [skipBlanks, rest_advanceBy]
    nth_rewrite 2 [← List.takeWhile_append_dropWhile (p := Lexeme.isBlank) (l := s.rest)]
    rw [List.drop_left]
  refine ⟨s.rest.takeWhile Lexeme.isBlank, ?_, fun c mem => List.mem_takeWhile_imp mem, ?_⟩
  · rw [ahead, List.takeWhile_append_dropWhile]
  · intro c mem
    have first := List.head?_dropWhile_not Lexeme.isBlank s.rest
    rw [← ahead, Option.mem_def.mp mem] at first
    exact first

/-- What the answer of a cursor says about places, when the text in front of it is `before`. -/
def Truthful (limits : Limits) (source before : List Char) (s : Cursor) : Prop :=
  match s.next limits with
  | (.ok token, t) =>
    ∃ blanks lexeme, s.rest = blanks ++ lexeme ++ t.rest ∧ (∀ c ∈ blanks, Lexeme.isBlank c = true) ∧
      token.position = positionAt source (before ++ blanks).length ∧
      if token.kind = .etx then before ++ blanks = source
      else ∃ c rest, lexeme = c :: rest ∧ Lexeme.isBlank c = false
  | (.error error, t) =>
    ∃ taken, s.rest = taken ++ t.rest ∧ error.position = positionAt source (before ++ taken).length ∧
      t.position = error.position

variable {limits : Limits} {text : String} {before : List Char} {s : Cursor}

/-- A token that is not the mark of the end takes the first character that is ahead. -/
theorem exists_take_eq {rest : List Char} {content : Token.Content} (h : (Lexeme.read limits rest).outcome = .ok content)
    (more : content.kind ≠ .etx) :
    ∃ c tail, rest.head? = some c ∧ rest.take (Lexeme.read limits rest).consumed = c :: tail := by
  cases rest with
  | nil =>
    cases h
    exact absurd rfl more
  | cons c rest =>
    have taken := Lexeme.read_consumed_pos (List.cons_ne_nil c rest) h
    obtain ⟨k, consumed⟩ := Nat.exists_eq_add_one.mpr taken
    exact ⟨c, rest.take k, rfl, by rw [consumed, List.take_succ_cons]⟩

/-- A call leaves the cursor where it has read to, and what it has answered is in the right place. -/
theorem Stands.next (h : s.Stands text before) :
    s.Truthful limits text.toList before ∧ ∃ taken, (s.next limits).2.Stands text (before ++ taken) := by
  obtain ⟨blanks, skipped, blank, first⟩ := s.exists_blanks
  have here : s.skipBlanks.Stands text (before ++ blanks) := h.advanceBy _ skipped
  have split : s.skipBlanks.rest = s.skipBlanks.rest.take (Lexeme.read limits s.skipBlanks.rest).consumed ++
      (Cursor.advanceBy (Lexeme.read limits s.skipBlanks.rest).consumed s.skipBlanks).rest := by
    rw [rest_advanceBy, List.take_append_drop]
  have there := here.advanceBy _ split
  have whole := skipped.trans (congrArg (blanks ++ ·) split)
  rw [← List.append_assoc] at whole
  rw [List.append_assoc] at there
  unfold Truthful Cursor.next
  dsimp only
  cases outcome : (Lexeme.read limits s.skipBlanks.rest).outcome with
  | ok content =>
    refine ⟨⟨blanks, _, whole, blank, here.position_eq, ?_⟩, _, there⟩
    split
    · rename_i ended
      have none := (Lexeme.read_legible outcome).2 ended
      rw [h.split, skipped, none, List.append_nil]
    · rename_i more
      obtain ⟨c, tail, head, take⟩ := exists_take_eq outcome more
      exact ⟨c, tail, take, first c head⟩
  | error fault => exact ⟨⟨_, whole, there.position_eq, rfl⟩, _, there⟩

/-- Places are truthful. However many tokens have been asked for, behind faults and behind the end of the text as
well, the cursor stands at the place of the characters it has left behind. So a token is at the place of its first
character, the end where the text ends, and a fault at the place of the character where reading has stopped. -/
theorem truthful_afterCalls (limits : Limits) (text : String) (n : Nat) :
    let s := (ofText text).afterCalls limits n
    ∃ before, text.toList = before ++ s.rest ∧ s.position = positionAt text.toList before.length ∧
      s.Truthful limits text.toList before := by
  have calls (s : Cursor) (before : List Char) (h : s.Stands text before) :
      ∃ taken, (s.afterCalls limits n).Stands text (before ++ taken) := by
    induction n generalizing s before with
    | zero => exact ⟨[], by rwa [List.append_nil]⟩
    | succ n ih =>
      obtain ⟨-, taken, h⟩ : s.Truthful limits text.toList before ∧ _ := h.next
      obtain ⟨more, h⟩ := ih _ _ h
      exact ⟨taken ++ more, by rwa [← List.append_assoc]⟩
  obtain ⟨taken, h⟩ := calls _ [] (.ofText text)
  exact ⟨_, h.split, h.position_eq, h.next.1⟩

end Cursor

end Mensura
